import DataReel.Database.Faults
import DataReel.Database.HeapRun
import DataReel.Library.Dialogue

/-! # What a call leaves in memory that fails

The headers in memory are changed before the requests that write them. A call
that fails for a request leaves them as they were if it has come no further
than its reads.
-/

namespace DataReel

namespace Device

/-- The headers in memory are the same. -/
structure SameHeaders (s t : Device) : Prop where
  fileHeader : t.db.fileHeader = s.db.fileHeader
  fileStats : t.db.fileStats = s.db.fileStats

/-- A call returns an address or 1. -/
def call (n : Nat) (position : Int) : HeapCall → DeviceM Int
  | .alloc bytes method => alloc n position bytes method
  | .delete a => do
    delete position a false
    pure 1
  | .remove a => do
    delete position a true
    pure 1
  | .unDelete a => do
    unDelete n position a
    pure 1

/-- The header of the block is not read. -/
def ReadFails (position objectAddress : Int) (s : Device) : Prop :=
  ∃ t, readBlockHdr position (objectAddress - s.db.blockHeaderSize) s = .error .readFailed t

/-- `UnDelete` does not read all links up to the block, or it comes to a block behind the head of the list
while the number of deleted blocks is 0. -/
def UnDeleteStops (n : Nat) (position objectAddress : Int) (s : Device) : Prop :=
  let blockAddress := objectAddress - s.db.blockHeaderSize
  ∃ hdr s₁, readBlockHdr position blockAddress s = .ok hdr s₁ ∧
    let found := walk Database.readPosition (fun address _ => address = blockAddress) n
      s.db.fileHeader.gxdFsFptr (Database.readPosition position blockAddress + sizeOfBlockHeader) s₁
    ((∃ t, found = .error .readFailed t) ∨
      ∃ passed address hdr t, found = .ok (passed, .found address hdr) t ∧ passed ≠ [] ∧
        s.db.fileStats.deletedBlocks ≤ 0)

/-- The block that `Alloc` takes from the list is an exact fit behind its head, while the number of its
kind is 0. -/
def TakesUncounted (n : Nat) (position : Int) (bytes : Nat) (method : ReclaimMethod) (s : Device) : Prop :=
  s.db.fileHeader.gxdFsFptr ≠ 0 ∧ s.db.fileHeader.gxdFsFptr ≠ gxFSListCorrupt ∧
  ∃ accept passed address hdr prev s₁ t,
    (method = .firstFit ∧ accept = (fun (_ : Int) hdr => s.db.fits bytes hdr) ∨
      method = .bestFit ∧ accept = fun _ hdr => decide (hdr.blockLength = bytes)) ∧
    walk seekTo accept n s.db.fileHeader.gxdFsFptr position s = .ok (passed, .found address hdr) s₁ ∧
    hdr.blockLength = bytes ∧ passed.getLast? = some prev ∧
    (s.db.uncount hdr.status).fileStats = s.db.fileStats ∧
    reclaimExact hdr (some prev) s₁ = .ok () t

/-- There are no bytes to write, no block to take from the list, and the file ends at a negative address. -/
def ExtendsNowhere (n : Nat) (position : Int) (bytes : Nat) (method : ReclaimMethod) (s : Device) : Prop :=
  bytes = 0 ∧ -2 ^ 63 ≤ s.db.fileHeader.gxdEof ∧ s.db.fileHeader.gxdEof < 0 ∧
  s.db.fileHeader.gxdEof ≠ gxCurrAddress ∧
  ∃ t, reclaim n position bytes method s = .ok 0 t ∧ SameHeaders s t

/-- A call that fails for the file stops before it changes the headers in memory, or what it has changed of
them is as before. -/
def FailsEarly (n : Nat) (position : Int) (s : Device) : HeapCall → Prop
  | .alloc bytes method =>
    s.writable = false ∨ TakesUncounted n position ((bytes + s.db.overhead) % 2 ^ 64) method s ∨
      ExtendsNowhere n position ((bytes + s.db.overhead) % 2 ^ 64) method s
  | .delete a | .remove a => ReadFails position a s
  | .unDelete a => ReadFails position a s ∨ UnDeleteStops n position a s

/-! ## Programs that do not touch the headers -/

section Quiet

open Program

variable {s t u : Device}

theorem SameHeaders.trans (h : SameHeaders s t) (h' : SameHeaders t u) : SameHeaders s u :=
  ⟨h'.fileHeader.trans h.fileHeader, h'.fileStats.trans h.fileStats⟩

/-- The object is the same but for its file. -/
structure Untouched (s t : Device) : Prop extends SameHeaders s t where
  writable : t.writable = s.writable
  memory : t.memory = s.memory

theorem Untouched.refl (s : Device) : Untouched s s := ⟨⟨rfl, rfl⟩, rfl, rfl⟩

/-- The program leaves the object in memory as it is, however it ends. -/
def Quiet {α : Type} (x : DeviceM α) : Prop := ∀ s, Program.Keeps (Untouched s) x

variable {α β : Type} {x : DeviceM α}

theorem Quiet.ok (hx : Quiet x) {a : α} (hRun : x s = .ok a t) : Untouched s t := by
  have hEnds := hx s s (.refl s)
  rwa [Ends, hRun] at hEnds

theorem Quiet.error (hx : Quiet x) {e : CallFailure} (hRun : x s = .error e t) : Untouched s t := by
  have hEnds := hx s s (.refl s)
  rwa [Ends, hRun] at hEnds

theorem Quiet.bind (hx : Quiet x) {f : α → DeviceM β} (hf : ∀ a, Quiet (f a)) : Quiet (x >>= f) :=
  fun s => (hx s).bind fun a => hf a s

theorem quiet_pure (a : α) : Quiet (pure a : DeviceM α) := fun _ => keeps_pure a

theorem quiet_throw (e : CallFailure) : Quiet (throw e : DeviceM α) := fun _ => keeps_throw e

theorem Quiet.ite {c : Prop} [Decidable c] {y : DeviceM α} (hx : Quiet x) (hy : Quiet y) :
    Quiet (if c then x else y) := fun s => (hx s).ite (hy s)

theorem quiet_get : Quiet (get : DeviceM Device) := fun _ _ h => h

theorem quiet_request : Quiet request := by
  intro s t h
  cases t with
  | mk db writable memory requests =>
    cases requests with
    | nil => exact h
    | cons r rest => exact ⟨⟨h.fileHeader, h.fileStats⟩, h.writable, h.memory⟩

theorem quiet_update {f : Database → Database} (hHeader : ∀ d, (f d).fileHeader = d.fileHeader)
    (hStats : ∀ d, (f d).fileStats = d.fileStats) : Quiet (update f) := fun _ t h =>
  ⟨⟨(hHeader t.db).trans h.fileHeader, (hStats t.db).trans h.fileStats⟩, h.writable, h.memory⟩

theorem quiet_read (address : Int) : Quiet (read address) := by
  refine quiet_request.bind fun r => ?_
  cases r with
  | failed n => exact quiet_throw _
  | done =>
    refine quiet_get.bind fun s => ?_
    cases s.db.readAt address with
    | none => exact quiet_throw _
    | some hdr => exact quiet_pure _

theorem quiet_readBlockHdr (position address : Int) : Quiet (readBlockHdr position address) :=
  (quiet_read _).bind fun _ => (quiet_pure _).ite (quiet_throw _)

theorem quiet_write (address : Int) (bytes : Nat) {f : Database → Database}
    (hHeader : ∀ d, (f d).fileHeader = d.fileHeader) (hStats : ∀ d, (f d).fileStats = d.fileStats) :
    Quiet (write address bytes f) := by
  refine quiet_get.bind fun s => ?_
  refine (quiet_throw _).ite ((quiet_throw _).ite ((quiet_update hHeader hStats).ite ?_))
  refine quiet_request.bind fun r => ?_
  cases r with
  | failed n =>
    have hCut : Quiet (update fun d => d.cutOff (f d) address (min n bytes)) :=
      quiet_update (fun _ => rfl) fun _ => rfl
    exact hCut.bind fun _ => quiet_throw _
  | done => exact (quiet_update hHeader hStats).ite (quiet_throw _)

theorem quiet_writeBlockHdr (hdr : BlockHeader) (address : Int) : Quiet (writeBlockHdr hdr address) :=
  quiet_write _ _ (fun _ => rfl) fun _ => rfl

theorem quiet_writeFileStatsHdr : Quiet writeFileStatsHdr := by
  refine quiet_get.bind fun s => Quiet.ite ?_ (quiet_pure _)
  apply quiet_write
  · intro d
    rw [Database.writeFileStatsHdr]
    split <;> rfl
  · intro d
    rw [Database.writeFileStatsHdr]
    split <;> rfl

theorem quiet_writeFileHdr : Quiet writeFileHdr := by
  have hFirst : Quiet (write 0 sizeOfFileHeader fun d => d.writeWords 0 d.fileHeader.words) :=
    quiet_write _ _ (fun _ => rfl) fun _ => rfl
  exact hFirst.bind fun _ => quiet_writeFileStatsHdr

theorem quiet_walk (locate : Int → Int → Int) (accept : Int → BlockHeader → Bool) (n : Nat)
    (address position : Int) : Quiet (walk locate accept n address position) := by
  induction n generalizing address position with
  | zero => exact quiet_throw _
  | succ n ih =>
    refine (quiet_pure _).ite ((quiet_read _).bind fun hdr => ?_)
    refine (quiet_pure _).ite ((quiet_pure _).ite ((quiet_pure _).ite ?_))
    exact (ih _ _).bind fun _ => quiet_pure _

end Quiet

/-! ## How the reads fail -/

section Reads

variable {s t : Device} {e : CallFailure}

theorem request_ne_error : request s ≠ .error e t := by
  rw [request]
  split <;> nofun

theorem read_error {address : Int} (hRun : read address s = .error e t) : e = .readFailed := by
  rcases Exec.of_bind_error hRun with hFirst | ⟨r, u, -, hRest⟩
  · exact absurd hFirst request_ne_error
  · cases r with
    | failed n =>
      cases hRest
      rfl
    | done =>
      dsimp only at hRest
      rw [Exec.bind_ok (Exec.get_run u)] at hRest
      cases hRead : u.db.readAt address with
      | none =>
        rw [hRead] at hRest
        cases hRest
        rfl
      | some hdr =>
        rw [hRead] at hRest
        cases hRest

theorem readBlockHdr_error {position address : Int}
    (hRun : readBlockHdr position address s = .error e t) : e = .readFailed ∨ e = .refused := by
  rcases Exec.of_bind_error hRun with hFirst | ⟨hdr, u, -, hRest⟩
  · exact .inl (read_error hFirst)
  · split at hRest
    · cases hRest
    · cases hRest
      exact .inr rfl

theorem walk_error {locate : Int → Int → Int} {accept : Int → BlockHeader → Bool} {n : Nat}
    {address position : Int} (hRun : walk locate accept n address position s = .error e t) :
    e = .readFailed ∨ e = .endless := by
  induction n generalizing address position s with
  | zero =>
    cases hRun
    exact .inr rfl
  | succ n ih =>
    rw [walk] at hRun
    split at hRun
    · cases hRun
    rcases Exec.of_bind_error hRun with hFirst | ⟨hdr, u, -, hRest⟩
    · exact .inl (read_error hFirst)
    split at hRest
    · cases hRest
    split at hRest
    · cases hRest
    split at hRest
    · cases hRest
    rcases Exec.of_bind_error hRest with hNext | ⟨r, v, -, hEnd⟩
    · exact ih hNext
    · cases hEnd

theorem walk_found {locate : Int → Int → Int} {accept : Int → BlockHeader → Bool} {n : Nat}
    {start position address : Int} {hdr : BlockHeader} {passed : List (Int × BlockHeader)}
    (hRun : walk locate accept n start position s = .ok (passed, .found address hdr) t) :
    address ≠ 0 ∧ address ≠ hdr.blockNdFptr ∧ accept address hdr = true ∧
      (passed = [] → address = start) := by
  induction n generalizing start position s passed with
  | zero => cases hRun
  | succ n ih =>
    rw [walk] at hRun
    split at hRun
    · cases hRun
    rename_i hNull
    obtain ⟨hdr', u, -, hRest⟩ := Exec.of_bind_ok hRun
    split at hRest
    · cases hRest
    split at hRest
    · cases hRest
    rename_i hLink
    split at hRest
    · rename_i hAccept
      cases hRest
      simp only [Bool.or_eq_true, decide_eq_true_eq, not_or] at hLink
      exact ⟨hNull, hLink.2, hAccept, fun _ => rfl⟩
    · obtain ⟨⟨l, ending⟩, v, hNext, hEnd⟩ := Exec.of_bind_ok hRest
      cases hEnd
      obtain ⟨hAddress, hSelf, hAccept, -⟩ := ih hNext
      exact ⟨hAddress, hSelf, hAccept, nofun⟩

end Reads

/-! ## `Delete` and `UnDelete` -/

section Calls

variable {s t : Device} {e : CallFailure} {n : Nat} {position a : Int}

theorem update_run (f : Database → Database) (s : Device) :
    update f s = .ok () { s with db := f s.db } := rfl

theorem ignore_ne_error (x : DeviceM Unit) : ignore x s ≠ .error e t := by
  rw [ignore]
  split <;> nofun

theorem countDeleted_ne (removeObject : Bool) (d : Database) :
    (d.countDeleted removeObject).fileStats ≠ d.fileStats := by
  cases removeObject with
  | false =>
    intro h
    exact (Int.lt_succ d.fileStats.deletedBlocks).ne' (congrArg FileStatsHeader.deletedBlocks h)
  | true =>
    intro h
    exact (Int.lt_succ d.fileStats.removedBlocks).ne' (congrArg FileStatsHeader.removedBlocks h)

theorem delete_keeps_iff {removeObject : Bool} (hRun : delete position a removeObject s = .error e t)
    (hFile : e.byFile = true) : SameHeaders s t ↔ ReadFails position a s := by
  rw [delete, Exec.bind_ok (Exec.get_run s)] at hRun
  rcases Exec.of_bind_error hRun with hRead | ⟨hdr, s₁, hRead, hRest⟩
  · rcases readBlockHdr_error hRead with rfl | rfl
    · exact iff_of_true ((quiet_readBlockHdr _ _).error hRead).toSameHeaders ⟨t, hRead⟩
    · cases hFile
  · have hStart := (quiet_readBlockHdr _ _).ok hRead
    have hReads : ¬ ReadFails position a s := by
      rintro ⟨u, hFails⟩
      cases hRead.symm.trans hFails
    refine iff_of_false ?_ hReads
    intro hSame
    split at hRest
    · cases hRest
      cases hFile
    rw [Exec.bind_ok (update_run _ _)] at hRest
    rcases Exec.of_bind_error hRest with hWrite | ⟨-, s₂, -, hEnd⟩
    · have hCounted := ((quiet_writeBlockHdr _ _).error hWrite).fileStats
      rw [hSame.fileStats, ← hStart.fileStats] at hCounted
      exact countDeleted_ne removeObject s₁.db hCounted.symm
    · split at hEnd
      · cases hEnd
      · rw [Exec.bind_ok (update_run _ _)] at hEnd
        exact ignore_ne_error _ hEnd

theorem uncountDeleted_eq_iff (d : Database) :
    d.uncountDeleted.fileStats = d.fileStats ↔ d.fileStats.deletedBlocks ≤ 0 := by
  rw [Database.uncountDeleted]
  constructor
  · intro h
    have hCount := congrArg FileStatsHeader.deletedBlocks h
    dsimp only at hCount
    split at hCount
    · dsimp only at hCount
      omega
    · omega
  · intro h
    rw [if_neg (by omega)]

theorem unlink_head (hdr : BlockHeader) (s : Device) : unlink hdr .none s =
    writeFileHdr { s with db := s.db.uncountDeleted.setFsFptr hdr.blockNdFptr } := rfl

theorem unlink_behind (hdr : BlockHeader) (p : Int × BlockHeader) (s : Device) : unlink hdr (some p) s =
    writeBlockHdr { p.2 with blockNdFptr := hdr.blockNdFptr } p.1
      { s with db := s.db.uncountDeleted } := rfl

theorem unlink_keeps_iff {hdr last : BlockHeader} {address : Int} {prev : Option (Int × BlockHeader)}
    (hRun : (unlink hdr prev >>= fun _ => writeBlockHdr last address : DeviceM Unit) s = .error e t)
    (hHead : prev = .none → hdr.blockNdFptr ≠ s.db.fileHeader.gxdFsFptr) :
    SameHeaders s t ↔ prev ≠ .none ∧ s.db.fileStats.deletedBlocks ≤ 0 := by
  cases prev with
  | none =>
    refine iff_of_false ?_ fun h => h.1 rfl
    intro hSame
    have hLink := hSame.fileHeader
    rcases Exec.of_bind_error hRun with hUnlink | ⟨_, s₂, hUnlink, hEnd⟩
    · rw [unlink_head] at hUnlink
      rw [(quiet_writeFileHdr.error hUnlink).fileHeader] at hLink
      exact hHead rfl (congrArg FileHeader.gxdFsFptr hLink)
    · rw [unlink_head] at hUnlink
      rw [((quiet_writeBlockHdr _ _).error hEnd).fileHeader, (quiet_writeFileHdr.ok hUnlink).fileHeader] at hLink
      exact hHead rfl (congrArg FileHeader.gxdFsFptr hLink)
  | some p =>
    have hEnd : SameHeaders { s with db := s.db.uncountDeleted } t := by
      rcases Exec.of_bind_error hRun with hUnlink | ⟨_, s₂, hUnlink, hEnd⟩
      · rw [unlink_behind] at hUnlink
        exact ((quiet_writeBlockHdr _ _).error hUnlink).toSameHeaders
      · rw [unlink_behind] at hUnlink
        have hFirst := (quiet_writeBlockHdr _ _).ok hUnlink
        exact hFirst.toSameHeaders.trans ((quiet_writeBlockHdr _ _).error hEnd).toSameHeaders
    rw [← uncountDeleted_eq_iff]
    constructor
    · exact fun hSame => ⟨nofun, hEnd.fileStats.symm.trans hSame.fileStats⟩
    · exact fun h => ⟨hEnd.fileHeader, hEnd.fileStats.trans h.2⟩

theorem unDelete_keeps_iff (hRun : unDelete n position a s = .error e t) (hFile : e.byFile = true) :
    SameHeaders s t ↔ ReadFails position a s ∨ UnDeleteStops n position a s := by
  rw [unDelete, Exec.bind_ok (Exec.get_run s)] at hRun
  rcases Exec.of_bind_error hRun with hRead | ⟨hdr, s₁, hRead, hRest⟩
  · rcases readBlockHdr_error hRead with rfl | rfl
    · exact iff_of_true ((quiet_readBlockHdr _ _).error hRead).toSameHeaders (.inl ⟨t, hRead⟩)
    · cases hFile
  have hStart := (quiet_readBlockHdr _ _).ok hRead
  have hReads : ¬ ReadFails position a s := by
    rintro ⟨u, hFails⟩
    cases hRead.symm.trans hFails
  rw [or_iff_right hReads]
  split at hRest
  · cases hRest
    cases hFile
  rcases Exec.of_bind_error hRest with hWalk | ⟨⟨passed, ending⟩, s₂, hWalk, hEnd⟩
  · rcases walk_error hWalk with rfl | rfl
    · refine iff_of_true ?_ ⟨hdr, s₁, hRead, .inl ⟨t, hWalk⟩⟩
      exact hStart.toSameHeaders.trans ((quiet_walk _ _ _ _ _).error hWalk).toSameHeaders
    · cases hFile
  have hWalked := hStart.toSameHeaders.trans ((quiet_walk _ _ _ _ _).ok hWalk).toSameHeaders
  cases ending with
  | none | readError =>
    cases hEnd
    cases hFile
  | badBlock | badLink =>
    rcases Exec.of_bind_error hEnd with hCorrupt | ⟨-, s₃, -, hThrow⟩
    · rw [corruptFSList, Exec.bind_ok (update_run _ _)] at hCorrupt
      exact absurd hCorrupt (ignore_ne_error _)
    · cases hThrow
      cases hFile
  | found address found =>
    obtain ⟨-, hSelf, -, hStartAt⟩ := walk_found hWalk
    have hIff := unlink_keeps_iff hEnd (by
      intro hNone
      rw [hWalked.fileHeader, ← hStartAt (List.getLast?_eq_none_iff.mp hNone)]
      exact hSelf.symm)
    have hSame : SameHeaders s t ↔ SameHeaders s₂ t := by
      constructor
      · intro h
        exact ⟨h.fileHeader.trans hWalked.fileHeader.symm, h.fileStats.trans hWalked.fileStats.symm⟩
      · exact hWalked.trans
    rw [hSame, hIff, ne_eq, List.getLast?_eq_none_iff, hWalked.fileStats]
    constructor
    · intro h
      exact ⟨hdr, s₁, hRead, .inr ⟨passed, address, found, s₂, hWalk, h⟩⟩
    · rintro ⟨hdr', s₁', hRead', hStops⟩
      obtain ⟨rfl, rfl⟩ : hdr = hdr' ∧ s₁ = s₁' := by
        cases hRead.symm.trans hRead'
        exact ⟨rfl, rfl⟩
      rcases hStops with ⟨u, hFails⟩ | ⟨passed', address', found', u, hFound, hLast⟩
      · cases hWalk.symm.trans hFails
      · cases hWalk.symm.trans hFound
        exact hLast

end Calls

/-! ## Reclaiming a block -/

section Reclaim

open Program

variable {s t u : Device} {e : CallFailure} {n bytes : Nat} {position a : Int}

/-- What a search of the free space list may change. -/
structure Reclaiming (s t : Device) : Prop where
  writable : t.writable = s.writable
  memory : t.memory = s.memory
  gxdEof : t.db.fileHeader.gxdEof = s.db.fileHeader.gxdEof
  numBlocks : s.db.fileStats.numBlocks ≤ t.db.fileStats.numBlocks

def Reclaims {α : Type} (x : DeviceM α) : Prop := ∀ s, Program.Keeps (Reclaiming s) x

variable {α β : Type} {x : DeviceM α}

theorem Quiet.reclaims (hx : Quiet x) : Reclaims x := by
  intro s t h
  have hNext {u : Device} (hu : Untouched t u) : Reclaiming s u := by
    refine ⟨hu.writable.trans h.writable, hu.memory.trans h.memory, ?_, ?_⟩
    · rw [hu.fileHeader, h.gxdEof]
    · rw [hu.fileStats]
      exact h.numBlocks
  exact (hx t t (.refl t)).mono (fun _ _ => hNext) fun _ => hNext

theorem Reclaims.bind (hx : Reclaims x) {f : α → DeviceM β} (hf : ∀ a, Reclaims (f a)) :
    Reclaims (x >>= f) := fun s => (hx s).bind fun a => hf a s

theorem Reclaims.ite {c : Prop} [Decidable c] {y : DeviceM α} (hx : Reclaims x) (hy : Reclaims y) :
    Reclaims (if c then x else y) := fun s => (hx s).ite (hy s)

theorem reclaims_pure (a : α) : Reclaims (pure a : DeviceM α) := (quiet_pure a).reclaims

theorem reclaims_update {f : Database → Database}
    (hEof : ∀ d, (f d).fileHeader.gxdEof = d.fileHeader.gxdEof)
    (hBlocks : ∀ d, d.fileStats.numBlocks ≤ (f d).fileStats.numBlocks) : Reclaims (update f) :=
  fun _ t h => ⟨h.writable, h.memory, (hEof t.db).trans h.gxdEof, h.numBlocks.trans (hBlocks t.db)⟩

theorem reclaims_setFsFptr (address : Int) : Reclaims (update fun d => d.setFsFptr address) :=
  reclaims_update (fun _ => rfl) fun _ => Int.le_refl _

theorem Reclaims.ignore {x : DeviceM Unit} (hx : Reclaims x) : Reclaims (ignore x) := by
  intro s t h
  have hEnds := hx s t h
  unfold Ends at hEnds ⊢
  rw [Device.ignore]
  cases hRun : x t with
  | ok a u =>
    rw [hRun] at hEnds
    exact hEnds
  | error e u =>
    rw [hRun] at hEnds
    exact hEnds

theorem reclaims_relink (prev : Option (Int × BlockHeader)) (address : Int) :
    Reclaims (relink prev address) := by
  cases prev with
  | none => exact (reclaims_setFsFptr _).bind fun _ => quiet_writeFileHdr.reclaims
  | some p =>
    exact (quiet_writeBlockHdr _ _).reclaims.bind fun _ => quiet_writeFileStatsHdr.reclaims

theorem uncount_numBlocks (d : Database) (status : Nat) :
    (d.uncount status).fileStats.numBlocks = d.fileStats.numBlocks := by
  simp only [Database.uncount]
  split
  · split <;> rfl
  · split
    · split <;> rfl
    · rfl

theorem uncount_fileHeader (d : Database) (status : Nat) :
    (d.uncount status).fileHeader = d.fileHeader := by
  simp only [Database.uncount]
  split
  · rfl
  · split <;> rfl

theorem uncount_congr {d d' : Database} (hStats : d'.fileStats = d.fileStats) (status : Nat) :
    (d'.uncount status).fileStats = (d.uncount status).fileStats := by
  simp only [Database.uncount, hStats]
  split
  · rfl
  · split
    · rfl
    · exact hStats

theorem reclaims_exact (hdr : BlockHeader) (prev : Option (Int × BlockHeader)) :
    Reclaims (reclaimExact hdr prev) := by
  have hCount : Reclaims (update fun d => d.uncount hdr.status) := by
    apply reclaims_update
    · exact fun d => congrArg FileHeader.gxdEof (uncount_fileHeader d _)
    · exact fun d => (uncount_numBlocks d _).symm.le
  exact hCount.bind fun _ => reclaims_relink _ _

theorem reclaims_split (address : Int) (hdr : BlockHeader) (unused status : Nat)
    (prev : Option (Int × BlockHeader)) : Reclaims (reclaimSplit bytes address hdr unused status prev) := by
  have hCount : Reclaims (update fun d => (d.uncount status).countRest) := by
    apply reclaims_update
    · exact fun d => congrArg FileHeader.gxdEof (uncount_fileHeader d _)
    · intro d
      change d.fileStats.numBlocks ≤ (d.uncount status).fileStats.numBlocks + 1
      rw [uncount_numBlocks]
      exact (Int.lt_succ _).le
  exact hCount.bind fun _ => (quiet_writeBlockHdr _ _).reclaims.bind fun _ => reclaims_relink _ _

theorem reclaims_corruptFSList : Reclaims corruptFSList :=
  (reclaims_setFsFptr _).bind fun _ => quiet_writeFileHdr.reclaims.ignore

theorem reclaims_firstFit : Reclaims (reclaimFirstFit n position bytes) := by
  refine quiet_get.reclaims.bind fun s => (reclaims_pure _).ite ?_
  refine (quiet_walk _ _ _ _ _).reclaims.bind ?_
  rintro ⟨passed, ending⟩
  cases ending with
  | none | readError => exact reclaims_pure _
  | badBlock | badLink => exact reclaims_corruptFSList.bind fun _ => reclaims_pure _
  | found address hdr =>
    dsimp only
    split
    · exact (reclaims_exact _ _).bind fun _ => reclaims_pure _
    · exact (reclaims_split _ _ _ _ _).bind fun _ => reclaims_pure _

theorem reclaims_bestFit : Reclaims (reclaimBestFit n position bytes) := by
  refine quiet_get.reclaims.bind fun s => (reclaims_pure _).ite ?_
  refine (quiet_walk _ _ _ _ _).reclaims.bind ?_
  rintro ⟨passed, ending⟩
  cases ending with
  | readError => exact reclaims_pure _
  | badBlock | badLink => exact reclaims_corruptFSList.bind fun _ => reclaims_pure _
  | found address hdr => exact (reclaims_exact _ _).bind fun _ => reclaims_pure _
  | none =>
    dsimp only
    split
    · exact reclaims_pure _
    · exact (reclaims_split _ _ _ _ _).bind fun _ => reclaims_pure _

theorem Reclaims.orZero {x : DeviceM Int} (hx : Reclaims x) : Reclaims (orZero x) := by
  intro s t h
  have hEnds := hx s t h
  unfold Ends at hEnds ⊢
  rw [Device.orZero]
  cases hRun : x t with
  | ok a u =>
    rw [hRun] at hEnds
    exact hEnds
  | error e u =>
    rw [hRun] at hEnds
    cases e <;> exact hEnds

theorem reclaims_reclaim (method : ReclaimMethod) : Reclaims (reclaim n position bytes method) := by
  refine quiet_get.reclaims.bind fun s => (reclaims_pure _).ite ?_
  cases method with
  | none => exact reclaims_pure _
  | bestFit => exact reclaims_bestFit.orZero
  | firstFit => exact reclaims_firstFit.orZero

end Reclaim

/-! ## `Alloc` -/

section Alloc

variable {s t : Device} {e : CallFailure} {n bytes status : Nat} {position a : Int}
  {method : ReclaimMethod}

theorem orZero_error {x : DeviceM Int} (hRun : orZero x s = .error e t) : e = .endless := by
  rw [orZero] at hRun
  split at hRun
  · cases hRun
  · cases hRun
    rfl
  · cases hRun

theorem orZero_ok {x : DeviceM Int} (hRun : orZero x s = .ok a t) (hFound : a ≠ 0) :
    x s = .ok a t := by
  rw [orZero] at hRun
  split at hRun
  · rename_i hx
    cases hRun
    exact hx
  · cases hRun
  · cases hRun
    exact absurd rfl hFound

theorem orZero_of_ok {x : DeviceM Int} (hRun : x s = .ok a t) : orZero x s = .ok a t := by
  rw [orZero, hRun]

theorem reclaim_error (hRun : reclaim n position bytes method s = .error e t) : e = .endless := by
  cases method with
  | none =>
    rw [reclaim, Exec.bind_ok (Exec.get_run s)] at hRun
    split at hRun <;> cases hRun
  | bestFit | firstFit =>
    rw [reclaim, Exec.bind_ok (Exec.get_run s)] at hRun
    split at hRun
    · cases hRun
    · exact orZero_error hRun

theorem exact_keeps_iff {hdr : BlockHeader} {prev : Option (Int × BlockHeader)}
    (hRun : reclaimExact hdr prev s = .ok () t)
    (hHead : prev = .none → hdr.blockNdFptr ≠ s.db.fileHeader.gxdFsFptr) :
    SameHeaders s t ↔ prev ≠ .none ∧ (s.db.uncount hdr.status).fileStats = s.db.fileStats := by
  rw [reclaimExact, Exec.bind_ok (update_run _ s)] at hRun
  cases prev with
  | none =>
    refine iff_of_false ?_ fun h => h.1 rfl
    intro hSame
    rw [relink, Exec.bind_ok (update_run _ _)] at hRun
    have hLink := (quiet_writeFileHdr.ok hRun).fileHeader
    rw [hSame.fileHeader] at hLink
    exact hHead rfl (congrArg FileHeader.gxdFsFptr hLink).symm
  | some p =>
    have hRelink : Quiet (relink (some p) hdr.blockNdFptr) :=
      (quiet_writeBlockHdr _ _).bind fun _ => quiet_writeFileStatsHdr
    have hEnd := (hRelink.ok hRun).toSameHeaders
    constructor
    · exact fun hSame => ⟨nofun, hEnd.fileStats.symm.trans hSame.fileStats⟩
    · exact fun h => ⟨hEnd.fileHeader.trans (uncount_fileHeader _ _), hEnd.fileStats.trans h.2⟩

theorem split_numBlocks {hdr : BlockHeader} {prev : Option (Int × BlockHeader)} {unused : Nat}
    (hRun : reclaimSplit bytes a hdr unused status prev s = .ok () t) :
    s.db.fileStats.numBlocks < t.db.fileStats.numBlocks := by
  rw [reclaimSplit, Exec.bind_ok (update_run _ s)] at hRun
  have hRest : Reclaims (do
      writeBlockHdr ⟨gxCheckWord, unused, gxRemovedBlock, hdr.blockNdFptr⟩ (fau (a + bytes))
      relink prev (fau (a + bytes))) :=
    (quiet_writeBlockHdr _ _).reclaims.bind fun _ => reclaims_relink _ _
  have hEnds := hRest { s with db := (s.db.uncount status).countRest } _ ⟨rfl, rfl, rfl, Int.le_refl _⟩
  rw [Program.Ends, hRun] at hEnds
  have hCount : (s.db.uncount status).fileStats.numBlocks + 1 ≤ t.db.fileStats.numBlocks :=
    hEnds.numBlocks
  rw [uncount_numBlocks] at hCount
  exact Int.lt_of_add_one_le hCount

theorem SameHeaders.numBlocks (h : SameHeaders s t) :
    ¬ s.db.fileStats.numBlocks < t.db.fileStats.numBlocks := by
  rw [h.fileStats]
  exact Int.lt_irrefl _

theorem takes_of_exact {accept : Int → BlockHeader → Bool} {passed : List (Int × BlockHeader)}
    {hdr : BlockHeader} {s₁ : Device}
    (hMethod : method = .firstFit ∧ accept = (fun (_ : Int) hdr => s.db.fits bytes hdr) ∨
      method = .bestFit ∧ accept = fun _ hdr => decide (hdr.blockLength = bytes))
    (hNull : s.db.fileHeader.gxdFsFptr ≠ 0) (hCorrupt : s.db.fileHeader.gxdFsFptr ≠ gxFSListCorrupt)
    (hWalk : walk seekTo accept n s.db.fileHeader.gxdFsFptr position s = .ok (passed, .found a hdr) s₁)
    (hTake : reclaimExact hdr passed.getLast? s₁ = .ok () t) (hLength : hdr.blockLength = bytes)
    (hSame : SameHeaders s t) : TakesUncounted n position bytes method s := by
  have hStart := ((quiet_walk _ _ _ _ _).ok hWalk).toSameHeaders
  obtain ⟨-, hSelf, -, hStartAt⟩ := walk_found hWalk
  have hIff := exact_keeps_iff hTake fun hNone => by
    rw [hStart.fileHeader, ← hStartAt (List.getLast?_eq_none_iff.mp hNone)]
    exact hSelf.symm
  have hTaken : SameHeaders s₁ t :=
    ⟨hSame.fileHeader.trans hStart.fileHeader.symm, hSame.fileStats.trans hStart.fileStats.symm⟩
  obtain ⟨hBehind, hCount⟩ := hIff.mp hTaken
  obtain ⟨prev, hPrev⟩ := Option.ne_none_iff_exists'.mp hBehind
  rw [hPrev] at hTake
  rw [uncount_congr hStart.fileStats, hStart.fileStats] at hCount
  exact ⟨hNull, hCorrupt, accept, passed, a, hdr, prev, s₁, t, hMethod, hWalk, hLength, hPrev, hCount, hTake⟩

theorem takes_of_firstFit (hRun : reclaimFirstFit n position bytes s = .ok a t) (hFound : a ≠ 0)
    (hNull : s.db.fileHeader.gxdFsFptr ≠ 0) (hSame : SameHeaders s t) :
    TakesUncounted n position bytes .firstFit s := by
  rw [reclaimFirstFit, Exec.bind_ok (Exec.get_run s)] at hRun
  split at hRun
  · cases hRun
    exact absurd rfl hFound
  rename_i hCorrupt
  obtain ⟨⟨passed, ending⟩, s₁, hWalk, hRest⟩ := Exec.of_bind_ok hRun
  have hStart := ((quiet_walk _ _ _ _ _).ok hWalk).toSameHeaders
  cases ending with
  | none | readError =>
    cases hRest
    exact absurd rfl hFound
  | badBlock | badLink =>
    obtain ⟨-, s₂, -, hEnd⟩ := Exec.of_bind_ok hRest
    cases hEnd
    exact absurd rfl hFound
  | found address hdr =>
    dsimp only at hRest
    split at hRest
    · rename_i hLength
      obtain ⟨_, s₂, hTake, hEnd⟩ := Exec.of_bind_ok hRest
      cases hEnd
      exact takes_of_exact (.inl ⟨rfl, rfl⟩) hNull hCorrupt hWalk hTake hLength hSame
    · obtain ⟨_, s₂, hTake, hEnd⟩ := Exec.of_bind_ok hRest
      cases hEnd
      have hMore := split_numBlocks hTake
      rw [hStart.fileStats] at hMore
      exact absurd hMore hSame.numBlocks

theorem takes_of_bestFit (hRun : reclaimBestFit n position bytes s = .ok a t) (hFound : a ≠ 0)
    (hNull : s.db.fileHeader.gxdFsFptr ≠ 0) (hSame : SameHeaders s t) :
    TakesUncounted n position bytes .bestFit s := by
  rw [reclaimBestFit, Exec.bind_ok (Exec.get_run s)] at hRun
  split at hRun
  · cases hRun
    exact absurd rfl hFound
  rename_i hCorrupt
  obtain ⟨⟨passed, ending⟩, s₁, hWalk, hRest⟩ := Exec.of_bind_ok hRun
  have hStart := ((quiet_walk _ _ _ _ _).ok hWalk).toSameHeaders
  cases ending with
  | readError =>
    cases hRest
    exact absurd rfl hFound
  | badBlock | badLink =>
    obtain ⟨-, s₂, -, hEnd⟩ := Exec.of_bind_ok hRest
    cases hEnd
    exact absurd rfl hFound
  | found address hdr =>
    obtain ⟨_, s₂, hTake, hEnd⟩ := Exec.of_bind_ok hRest
    cases hEnd
    have hLength := of_decide_eq_true (walk_found hWalk).2.2.1
    exact takes_of_exact (.inr ⟨rfl, rfl⟩) hNull hCorrupt hWalk hTake hLength hSame
  | none =>
    dsimp only at hRest
    split at hRest
    · cases hRest
      exact absurd rfl hFound
    · obtain ⟨_, s₂, hTake, hEnd⟩ := Exec.of_bind_ok hRest
      cases hEnd
      have hMore := split_numBlocks hTake
      rw [hStart.fileStats] at hMore
      exact absurd hMore hSame.numBlocks

/-- A block that is taken from the list and leaves the headers as they were is an exact fit behind the
list's head. -/
theorem takes_of_reclaim (hRun : reclaim n position bytes method s = .ok a t) (hFound : a ≠ 0)
    (hSame : SameHeaders s t) : TakesUncounted n position bytes method s := by
  cases method with
  | none =>
    rw [reclaim, Exec.bind_ok (Exec.get_run s)] at hRun
    split at hRun
    · cases hRun
      exact absurd rfl hFound
    · cases hRun
      exact absurd rfl hFound
  | bestFit =>
    rw [reclaim, Exec.bind_ok (Exec.get_run s)] at hRun
    split at hRun
    · cases hRun
      exact absurd rfl hFound
    · rename_i hNull
      exact takes_of_bestFit (orZero_ok hRun hFound) hFound hNull hSame
  | firstFit =>
    rw [reclaim, Exec.bind_ok (Exec.get_run s)] at hRun
    split at hRun
    · cases hRun
      exact absurd rfl hFound
    · rename_i hNull
      exact takes_of_firstFit (orZero_ok hRun hFound) hFound hNull hSame

theorem reclaim_of_takes (hTakes : TakesUncounted n position bytes method s) :
    ∃ a t, reclaim n position bytes method s = .ok a t ∧ a ≠ 0 ∧ SameHeaders s t := by
  obtain ⟨hNull, hCorrupt, accept, passed, address, hdr, prev, s₁, t, hMethod, hWalk, hLength, hPrev,
    hCount, hTake⟩ := hTakes
  have hStart := ((quiet_walk _ _ _ _ _).ok hWalk).toSameHeaders
  have hSame : SameHeaders s₁ t := by
    refine (exact_keeps_iff hTake nofun).mpr ⟨nofun, ?_⟩
    rw [uncount_congr hStart.fileStats, hStart.fileStats, hCount]
  refine ⟨address, t, ?_, (walk_found hWalk).1, hStart.trans hSame⟩
  rcases hMethod with ⟨rfl, rfl⟩ | ⟨rfl, rfl⟩
  · rw [reclaim, Exec.bind_ok (Exec.get_run s), if_neg hNull]
    apply orZero_of_ok
    rw [reclaimFirstFit, Exec.bind_ok (Exec.get_run s), if_neg hCorrupt, Exec.bind_ok hWalk]
    dsimp only
    rw [if_pos hLength, hPrev, Exec.bind_ok hTake]
    rfl
  · rw [reclaim, Exec.bind_ok (Exec.get_run s), if_neg hNull]
    apply orZero_of_ok
    rw [reclaimBestFit, Exec.bind_ok (Exec.get_run s), if_neg hCorrupt, Exec.bind_ok hWalk]
    dsimp only
    rw [hPrev, Exec.bind_ok hTake]
    rfl

/-- A write that fails is of one byte or more, or it is to a negative address or a file that is not open
for writing. -/
theorem write_error {address : Int} {f : Database → Database}
    (hRun : write address bytes f s = .error e t) :
    s.writable = false ∨ (address < 0 ∧ address ≠ gxCurrAddress) ∨ bytes ≠ 0 := by
  rw [write, Exec.bind_ok (Exec.get_run s)] at hRun
  split at hRun
  · rename_i hWritable
    exact .inl (Bool.not_eq_true' _ |>.mp hWritable)
  split at hRun
  · rename_i hSeek
    exact .inr (.inl hSeek)
  split at hRun
  · cases hRun
  · rename_i hBytes
    exact .inr (.inr hBytes)

theorem write_ok {address : Int} {f : Database → Database} {u : Unit}
    (hRun : write address bytes f s = .ok u t) : ¬ (address < 0 ∧ address ≠ gxCurrAddress) := by
  rw [write, Exec.bind_ok (Exec.get_run s)] at hRun
  split at hRun
  · cases hRun
  split at hRun
  · cases hRun
  · assumption

theorem fau_eq_iff (x : Int) : fau x = x ↔ -2 ^ 63 ≤ x ∧ x < 2 ^ 63 := by
  rw [fau, Int.bmod_eq_iff (by decide)]
  omega

theorem fau_add_ne {x : Int} (hBytes : bytes ≠ 0) (hMax : bytes < 2 ^ 64) : fau (x + bytes) ≠ x := by
  intro h
  have hMod : (x + bytes : Int).bmod (2 ^ 64) % (2 ^ 64 : Nat) = (x + bytes) % (2 ^ 64 : Nat) :=
    Int.bmod_emod
  rw [show (x + bytes : Int).bmod (2 ^ 64) = x from h] at hMod
  omega

theorem raiseEof_zero {d : Database} (hEof : -2 ^ 63 ≤ d.fileHeader.gxdEof ∧ d.fileHeader.gxdEof < 2 ^ 63) :
    d.raiseEof 0 = d := by
  rw [Database.raiseEof, Int.natCast_zero, Int.add_zero, (fau_eq_iff _).mpr hEof]

theorem extend_error (hRun : extend bytes s = .error e t) (hFile : e.byFile = true)
    (hWritable : s.writable = true) : SameHeaders { s with db := s.db.raiseEof bytes } t ∧
      ((s.db.fileHeader.gxdEof < 0 ∧ s.db.fileHeader.gxdEof ≠ gxCurrAddress) ∨ bytes ≠ 0) := by
  rw [extend, Exec.bind_ok (Exec.get_run s), Exec.bind_ok (update_run _ s)] at hRun
  split at hRun
  · cases hRun
    cases hFile
  rcases Exec.of_bind_error hRun with hWrite | ⟨-, s₁, -, hRest⟩
  · have hZeros : Quiet (write s.db.fileHeader.gxdEof bytes
        fun d => d.writeZeros s.db.fileHeader.gxdEof bytes) := quiet_write _ _ (fun _ => rfl) fun _ => rfl
    refine ⟨(hZeros.error hWrite).toSameHeaders, (write_error hWrite).resolve_left ?_⟩
    intro hFalse
    cases hFalse.symm.trans hWritable
  · cases hRest

theorem extend_ok (hRun : extend bytes s = .ok a t) :
    s.db.fileStats.numBlocks < t.db.fileStats.numBlocks ∧
      ¬ (s.db.fileHeader.gxdEof < 0 ∧ s.db.fileHeader.gxdEof ≠ gxCurrAddress) := by
  rw [extend, Exec.bind_ok (Exec.get_run s), Exec.bind_ok (update_run _ s)] at hRun
  split at hRun
  · cases hRun
  obtain ⟨_, s₁, hWrite, hRest⟩ := Exec.of_bind_ok hRun
  have hZeros : Quiet (write s.db.fileHeader.gxdEof bytes
      fun d => d.writeZeros s.db.fileHeader.gxdEof bytes) := quiet_write _ _ (fun _ => rfl) fun _ => rfl
  refine ⟨?_, write_ok hWrite⟩
  cases hRest
  change _ < s₁.db.fileStats.numBlocks + 1
  rw [(hZeros.ok hWrite).fileStats]
  exact Int.lt_succ _

theorem mark_error (hRun : mark bytes a s = .error e t) : SameHeaders s t := by
  rcases Exec.of_bind_error hRun with hFirst | ⟨_, s₁, hFirst, hRest⟩
  · exact ((quiet_writeBlockHdr _ _).error hFirst).toSameHeaders
  have hHdr := ((quiet_writeBlockHdr _ _).ok hFirst).toSameHeaders
  rw [Exec.bind_ok (Exec.get_run s₁)] at hRest
  have hLock : Quiet (write (a + sizeOfBlockHeader) sizeOfRecordLockHeader fun d =>
      d.writeWords (a + sizeOfBlockHeader) [0, 0, 0]) := quiet_write _ _ (fun _ => rfl) fun _ => rfl
  have hLast {u : Device} (hEnd : (update (·.raiseHbFptr a) >>= fun _ => ignore writeFileHdr : DeviceM Unit) u =
      .error e t) : False := by
    rw [Exec.bind_ok (update_run _ _)] at hEnd
    exact ignore_ne_error _ hEnd
  split at hRest
  · rcases Exec.of_bind_error hRest with hWrite | ⟨_, s₂, -, hEnd⟩
    · exact hHdr.trans (hLock.error hWrite).toSameHeaders
    · exact (hLast hEnd).elim
  · exact (hLast hRest).elim

theorem reclaim_ok (hRun : reclaim n position bytes method s = .ok a t) : Reclaiming s t := by
  have hEnds : Program.Ends (reclaim n position bytes method) s (fun _ => Reclaiming s) (Reclaiming s) :=
    reclaims_reclaim method s s ⟨rfl, rfl, rfl, Int.le_refl _⟩
  rwa [Program.Ends, hRun] at hEnds

theorem extended_iff {b : Int} {s₁ : Device}
    (hRun : (extend bytes >>= fun address => mark bytes address >>= fun _ =>
      pure (address + b) : DeviceM Int) s₁ = .error e t) (hFile : e.byFile = true)
    (hReclaim : reclaim n position bytes method s = .ok 0 s₁) (hWritable : s.writable = true)
    (hMax : bytes < 2 ^ 64) : SameHeaders s t ↔ ExtendsNowhere n position bytes method s := by
  have hReclaimed := reclaim_ok hReclaim
  rcases Exec.of_bind_error hRun with hExtend | ⟨address, s₂, hExtend, hRest⟩
  · obtain ⟨hRaised, hSeek⟩ := extend_error hExtend hFile (hReclaimed.writable.trans hWritable)
    rw [hReclaimed.gxdEof] at hSeek
    constructor
    · intro hSame
      have hEof : fau (s₁.db.fileHeader.gxdEof + bytes) = s.db.fileHeader.gxdEof :=
        (congrArg FileHeader.gxdEof (hRaised.fileHeader.symm.trans hSame.fileHeader))
      rw [hReclaimed.gxdEof] at hEof
      obtain rfl : bytes = 0 := by
        by_contra hBytes
        exact fau_add_ne hBytes hMax hEof
      rw [Int.natCast_zero, Int.add_zero] at hEof
      have hRange := (fau_eq_iff _).mp hEof
      obtain ⟨hNeg, hCurr⟩ := hSeek.resolve_right (not_not.mpr rfl)
      rw [raiseEof_zero (hReclaimed.gxdEof ▸ hRange)] at hRaised
      exact ⟨rfl, hRange.1, hNeg, hCurr, s₁, hReclaim,
        hRaised.fileHeader.symm.trans hSame.fileHeader, hRaised.fileStats.symm.trans hSame.fileStats⟩
    · rintro ⟨rfl, hLow, hNeg, -, u, hNone, hSame⟩
      cases hNone.symm.trans hReclaim
      rw [raiseEof_zero (by rw [hReclaimed.gxdEof]; omega)] at hRaised
      exact hSame.trans hRaised
  · obtain ⟨hMore, hSeek⟩ := extend_ok hExtend
    rw [hReclaimed.gxdEof] at hSeek
    refine iff_of_false ?_ fun hNowhere => hSeek ⟨hNowhere.2.2.1, hNowhere.2.2.2.1⟩
    intro hSame
    rcases Exec.of_bind_error hRest with hMark | ⟨_, s₃, -, hPure⟩
    · rw [← (mark_error hMark).fileStats] at hMore
      exact hSame.numBlocks (lt_of_le_of_lt hReclaimed.numBlocks hMore)
    · cases hPure

theorem alloc_keeps_iff (hRun : alloc n position bytes method s = .error e t) (hFile : e.byFile = true) :
    SameHeaders s t ↔
      s.writable = false ∨ TakesUncounted n position ((bytes + s.db.overhead) % 2 ^ 64) method s ∨
        ExtendsNowhere n position ((bytes + s.db.overhead) % 2 ^ 64) method s := by
  rw [alloc, Exec.bind_ok (Exec.get_run s)] at hRun
  split at hRun
  · rename_i hWritable
    rw [or_iff_right (by rw [hWritable]; nofun)]
    have hMax : (bytes + s.db.overhead) % 2 ^ 64 < 2 ^ 64 := Nat.mod_lt _ (by decide)
    dsimp only at hRun
    generalize (bytes + s.db.overhead) % 2 ^ 64 = N at hRun hMax ⊢
    rcases Exec.of_bind_error hRun with hReclaim | ⟨found, s₁, hReclaim, hRest⟩
    · rw [reclaim_error hReclaim] at hFile
      cases hFile
    split at hRest
    · rename_i hNone
      subst hNone
      rw [extended_iff hRest hFile hReclaim hWritable hMax, or_iff_right]
      intro hTakes
      obtain ⟨a, u, hTaken, hFound, -⟩ := reclaim_of_takes hTakes
      cases hTaken.symm.trans hReclaim
      exact hFound rfl
    · rename_i hFound
      have hMarked : SameHeaders s₁ t := by
        rw [Exec.bind_ok (show (pure found : DeviceM Int) s₁ = .ok found s₁ from rfl)] at hRest
        rcases Exec.of_bind_error hRest with hMark | ⟨_, s₂, -, hPure⟩
        · exact mark_error hMark
        · cases hPure
      constructor
      · intro hSame
        have hReclaimed : SameHeaders s s₁ :=
          ⟨hMarked.fileHeader.symm.trans hSame.fileHeader, hMarked.fileStats.symm.trans hSame.fileStats⟩
        exact .inl (takes_of_reclaim hReclaim hFound hReclaimed)
      · rintro (hTakes | ⟨-, -, -, -, u, hNone, -⟩)
        · obtain ⟨a, u, hTaken, -, hReclaimed⟩ := reclaim_of_takes hTakes
          cases hTaken.symm.trans hReclaim
          exact hReclaimed.trans hMarked
        · cases hNone.symm.trans hReclaim
          exact absurd rfl hFound
  · rename_i hWritable
    cases hRun
    exact iff_of_true ⟨rfl, rfl⟩ (.inl (Bool.eq_false_iff.mpr hWritable))

end Alloc

/-! ## Runs -/

theorem call_keeps_iff {n : Nat} {position : Int} {c : HeapCall} {s t : Device} {e : CallFailure}
    (hRun : call n position c s = .error e t) (hFile : e.byFile = true) :
    SameHeaders s t ↔ FailsEarly n position s c := by
  cases c with
  | alloc bytes method => exact alloc_keeps_iff hRun hFile
  | delete a | remove a =>
    rcases Exec.of_bind_error hRun with hDelete | ⟨_, u, -, hPure⟩
    · exact delete_keeps_iff hDelete hFile
    · cases hPure
  | unDelete a =>
    rcases Exec.of_bind_error hRun with hUnDelete | ⟨_, u, -, hPure⟩
    · exact unDelete_keeps_iff hUnDelete hFile
    · cases hPure

/-- The calls, each with the file position it starts from, on a file whose requests may fail. A walk takes
as many turns as the number given for the object. -/
def deviceCalls (turns : Device → Nat) : Machine (Int × HeapCall) (Except CallFailure Int) Device where
  step c s :=
    match call (turns s) c.1 c.2 s with
    | .ok a t => (.ok a, t)
    | .error e t => (.error e, t)

/-- If the call fails for the file, the headers in memory stay as they were. -/
def KeepsHeaders (turns : Device → Nat) (c : Int × HeapCall) (s : Device) : Prop :=
  ∀ e t, call (turns s) c.1 c.2 s = .error e t → e.byFile = true → SameHeaders s t

/-- If the call fails for the file, it fails early. -/
def StopsEarly (turns : Device → Nat) (c : Int × HeapCall) (s : Device) : Prop :=
  ∀ e t, call (turns s) c.1 c.2 s = .error e t → e.byFile = true → FailsEarly (turns s) c.1 s c.2

/-- The calls of a run that fail for the file leave the headers in memory alone if and only if each of
them fails early. -/
theorem calls_keepHeaders_iff (turns : Device → Nat) (calls : List (Int × HeapCall)) (s : Device) :
    (deviceCalls turns).Along (KeepsHeaders turns) calls s ↔
      (deviceCalls turns).Along (StopsEarly turns) calls s := by
  have hCall (c : Int × HeapCall) (t : Device) : KeepsHeaders turns c t ↔ StopsEarly turns c t :=
    forall₄_congr fun _ _ hRun hFile => call_keeps_iff hRun hFile
  constructor
  · exact fun h => h.mono fun c _ t => (hCall c t).mp
  · exact fun h => h.mono fun c _ t => (hCall c t).mpr

/-- A new file of revision E that is open for writing. -/
def opened (requests : List RequestEnd) : Device := ⟨Database.create .E 0, true, 1024, requests⟩

theorem not_keepsHeaders {turns : Device → Nat} {c : Int × HeapCall} {s : Device} {e : CallFailure}
    (hStep : ((deviceCalls turns).step c s).1 = .error e) (hFile : e.byFile = true)
    (hStats : ((deviceCalls turns).step c s).2.db.fileStats ≠ s.db.fileStats) :
    ¬ KeepsHeaders turns c s := by
  intro hKeeps
  dsimp only [deviceCalls] at hStep hStats
  cases hRun : call (turns s) c.1 c.2 s with
  | ok a t =>
    rw [hRun] at hStep
    cases hStep
  | error e' t =>
    rw [hRun] at hStep hStats
    cases hStep
    exact hStats (hKeeps e t hRun hFile).fileStats

/-- The write of a deleted block fails, and the header that the next `Alloc` writes counts a deleted block. -/
theorem failedDelete_isCounted :
    let M := deviceCalls fun _ => 3
    let calls := [(104, HeapCall.alloc 8 .none), (136, .delete 136), (136, .alloc 8 .none)]
    let s := opened [.done, .done, .done, .done, .done, .failed 0]
    ¬ M.Along (KeepsHeaders fun _ => 3) calls s ∧
      (M.run calls s).1 = [.ok 136, .error .writeFailed, .ok 176] ∧
      (M.run calls s).2.db.readFileHdr.2.fileStats.deletedBlocks = 1 := by
  intro M calls s
  refine ⟨?_, by decide +kernel, by decide +kernel⟩
  rintro ⟨-, hDelete, -⟩
  refine not_keepsHeaders (e := .writeFailed) ?_ rfl ?_ hDelete
  · decide +kernel
  · decide +kernel

end Device

end DataReel
