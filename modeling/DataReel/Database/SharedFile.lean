import DataReel.Database.HeapRun

/-! # Handles that share a file

Several objects are open for writing on one file, each with its own copy of the
file header, and make whole calls one after another, as the file lock lets them.
Only some calls compare the copy with the header on disk.
-/

namespace DataReel

/-- What an object keeps in memory. -/
structure Handle where
  rev : Revision
  fileHeader : FileHeader
  fileStats : FileStatsHeader

/-- A file with the objects open on it, and what their callers know: the objects in use with their
lengths, and every address that was returned. -/
structure SharedFile (ι : Type) where
  file : Bytes
  fileSize : Int
  handles : ι → Handle
  live : List (Int × Nat)
  allocated : List Int

/-- A call of one of the objects. -/
inductive SharedCall (ι : Type)
  | heap (i : ι) (position : Int) (c : HeapCall)
  | testFileHeader (i : ι)
  deriving DecidableEq, Repr

namespace SharedFile

open Database

variable {ι : Type}

def view (s : SharedFile ι) (i : ι) : Database where
  file := s.file
  fileSize := s.fileSize
  rev := (s.handles i).rev
  fileHeader := (s.handles i).fileHeader
  fileStats := (s.handles i).fileStats

def put [DecidableEq ι] (s : SharedFile ι) (i : ι) (d : Database) : SharedFile ι :=
  { s with
    file := d.file
    fileSize := d.fileSize
    handles := Function.update s.handles i ⟨d.rev, d.fileHeader, d.fileStats⟩ }

/-- The database that the headers on disk describe. -/
def disk (rev : Revision) (s : SharedFile ι) : Database where
  file := s.file
  fileSize := s.fileSize
  rev := rev
  fileHeader := FileHeader.ofWords (s.file.readWords 0 7)
  fileStats := .init

/-- What the callers learn from an answer. -/
def record (s : SharedFile ι) (d : Database) : HeapCall → HeapReply → SharedFile ι
  | .alloc bytes _, .address a =>
    { s with live := (a, bytes) :: s.live, allocated := a :: s.allocated }
  | .delete a, .flag true | .remove a, .flag true =>
    { s with live := s.live.filter fun p => p.1 ≠ a }
  | .unDelete a, .flag true => { s with live := (a, d.objectLength 0 a) :: s.live }
  | _, _ => s

def sharedCalls [DecidableEq ι] : Machine (SharedCall ι) (Option HeapReply) (SharedFile ι) where
  step
    | .heap i position c, s =>
      let r := heapCalls.step (position, c) (s.view i)
      (some r.1, (s.put i r.2).record r.2 c r.1)
    | .testFileHeader i, s => (none, s.put i (s.view i).testFileHeader)

/-- A new file that was opened by all. -/
def create (rev : Revision) (staticSize : Nat) : SharedFile ι :=
  let d := Database.create rev staticSize
  { file := d.file
    fileSize := d.fileSize
    handles := fun _ => ⟨d.rev, d.fileHeader, d.fileStats⟩
    live := []
    allocated := [] }

/-- The header on disk describes the objects of all, and those in use are apart. -/
structure Consistent (rev : Revision) (s : SharedFile ι) : Prop where
  tiles : Tiles BlockHeader.blockLength (s.disk rev).fileHeader.gxdHsFptr (s.disk rev).blocks
    (s.disk rev).fileHeader.gxdEof
  apart : s.live.Pairwise fun p q : Int × Nat =>
    p.1 + (p.2 + rev.overhead : Nat) ≤ q.1 ∨ q.1 + (q.2 + rev.overhead : Nat) ≤ p.1
  inUse : ∀ p ∈ s.live, ∃ hdr, (p.1 - rev.blockHeaderSize, hdr) ∈ (s.disk rev).blocks ∧
    hdr.status = gxNormalBlock ∧ hdr.blockLength = p.2 + rev.overhead
  notFree : ∃ free, Segment (s.disk rev).nextFptr (s.disk rev).fileHeader.gxdFsFptr free 0 ∧
    free.Nodup ∧ ∀ p ∈ s.live, p.1 - rev.blockHeaderSize ∉ free
  described : ∀ a ∈ s.allocated, a - rev.blockHeaderSize ∈ (s.disk rev).blocks.map Prod.fst

/-- The copy in memory is the one on disk, and the call is one that a single object may make. -/
def Meets (rev : Revision) (e : SharedCall ι) (s : SharedFile ι) : Prop :=
  match e with
  | .heap i position c =>
    ((s.view i).fileHeader.gxdFsFptr = (s.disk rev).fileHeader.gxdFsFptr ∧
      (s.view i).fileHeader.gxdEof = (s.disk rev).fileHeader.gxdEof) ∧
    HeapCall.Allowed (position, c) (s.view i)
  | .testFileHeader _ => True

instance (rev : Revision) (s : SharedFile ι) : ∀ e, Decidable (Meets rev e s)
  | .heap i position c => inferInstanceAs (Decidable (((s.view i).fileHeader.gxdFsFptr =
      (s.disk rev).fileHeader.gxdFsFptr ∧ (s.view i).fileHeader.gxdEof =
      (s.disk rev).fileHeader.gxdEof) ∧ HeapCall.Allowed (position, c) (s.view i)))
  | .testFileHeader _ => inferInstanceAs (Decidable True)

/-! ## The invariant -/

/-- The heap on disk is that of every object whose copy of the header is up to date. -/
structure Kept (rev : Revision) (sig : Nat × Nat) (s : SharedFile ι)
    (blocks : List (Int × BlockHeader)) (free : List Int) : Prop where
  holds : (s.disk rev).Holds blocks free
  signature : revOfSig sig = rev ∧ sig.1 < 2 ^ 64 ∧ sig.2 < 2 ^ 64
  diskSig : (s.disk rev).fileHeader.gxdSig = sig
  handles : ∀ i, (s.handles i).rev = rev ∧ (s.handles i).fileHeader.gxdSig = sig ∧
    (s.handles i).fileHeader.gxdHsFptr = (s.disk rev).fileHeader.gxdHsFptr
  live : ∀ p ∈ s.live, (p.1 - rev.blockHeaderSize, .normal (p.2 + rev.overhead)) ∈ blocks
  liveNodup : (s.live.map Prod.fst).Nodup
  allocated : ∀ a ∈ s.allocated, a - rev.blockHeaderSize ∈ blocks.map Prod.fst

variable {rev : Revision} {sig : Nat × Nat} {s : SharedFile ι} {blocks : List (Int × BlockHeader)}
  {free : List Int}

theorem Kept.consistent (h : Kept rev sig s blocks free) : s.Consistent rev := by
  have hBlocks := h.holds.blocks_eq
  refine ⟨?_, ?_, fun p hp => ?_, ⟨free, h.holds.chain, h.holds.nodup, fun p hp hFree => ?_⟩,
    fun a ha => ?_⟩
  · rw [hBlocks]
    exact h.holds.tiles
  · refine (List.pairwise_map.mp h.liveNodup).imp_of_mem fun {p q} hp hq hne => ?_
    have hApart := h.holds.tiles.apart_of_ne (h.live p hp) (h.live q hq) (by
      dsimp only
      omega)
    dsimp only [BlockHeader.normal] at hApart
    omega
  · rw [hBlocks]
    refine ⟨_, h.live p hp, ?_, rfl⟩
    exact (h.holds.sound _ (h.live p hp)).status_eq
  · rw [h.holds.mem_free_iff (h.live p hp), BlockHeader.normal_isFree] at hFree
    cases hFree
  · rw [hBlocks]
    exact h.allocated a ha

theorem create_kept (rev : Revision) {staticSize : Nat}
    (hStatic : staticSize + rev.fileHeaderSize < 2 ^ 63) :
    ∃ sig blocks free, Kept rev sig (create rev staticSize : SharedFile ι) blocks free := by
  obtain ⟨blocks, free, hHolds, -⟩ := Database.create_kept rev hStatic
  have hHeader := create_fileHeader rev staticSize
  have hDisk := create_diskHeader rev hStatic
  refine ⟨(newHeader rev staticSize).gxdSig, blocks, free, ?_, ?_, ?_, fun i => ?_, nofun,
    List.nodup_nil, nofun⟩
  · refine hHolds.of_same rfl rfl (create_rev rev staticSize).symm ?_ ?_ ?_
    · exact (congrArg FileHeader.gxdFsFptr hDisk).trans (by rw [hHeader])
    · exact (congrArg FileHeader.gxdEof hDisk).trans (by rw [hHeader])
    · exact (congrArg FileHeader.gxdHsFptr hDisk).trans (by rw [hHeader])
  · cases rev <;> dsimp only [newHeader] <;> decide
  · exact congrArg FileHeader.gxdSig hDisk
  · refine ⟨create_rev rev staticSize, congrArg FileHeader.gxdSig hHeader, ?_⟩
    exact (congrArg FileHeader.gxdHsFptr hHeader).trans (congrArg FileHeader.gxdHsFptr hDisk).symm

/-! ## What the calls preserve -/

section Objects

variable {v d : Database} {a : Int} {blocks' : List (Int × BlockHeader)} {free' : List Int}

theorem Kept.live_kept (h : Kept rev sig s blocks free) (hChanges : Changes v d a blocks blocks' free')
    {p : Int × Nat} (hp : p ∈ s.live) (hne : p.1 - rev.blockHeaderSize ≠ a) :
    (p.1 - rev.blockHeaderSize, .normal (p.2 + rev.overhead)) ∈ blocks' :=
  hChanges.inUse _ (h.live p hp) (BlockHeader.normal_isFree _) hne

theorem Kept.allocated_kept (h : Kept rev sig s blocks free)
    (hChanges : Changes v d a blocks blocks' free') {x : Int} (hx : x ∈ s.allocated) :
    x - rev.blockHeaderSize ∈ blocks'.map Prod.fst := by
  obtain ⟨b, hb, hAddr⟩ := List.mem_map.mp (h.allocated x hx)
  obtain ⟨hdr, hb'⟩ := hChanges.starts b hb
  exact List.mem_map.mpr ⟨_, hb', hAddr⟩

theorem Kept.live_ne (h : Kept rev sig s blocks free) {hdr : BlockHeader} (hb : (a, hdr) ∈ blocks)
    (hFree : hdr.isFree = true) {p : Int × Nat} (hp : p ∈ s.live) : p.1 - rev.blockHeaderSize ≠ a := by
  rintro rfl
  rw [h.holds.header_unique hb (h.live p hp), BlockHeader.normal_isFree] at hFree
  cases hFree

theorem Kept.live_cons (h : Kept rev sig s blocks free) (hChanges : Changes v d a blocks blocks' free')
    {n : Nat} (hNew : (a, .normal (n + rev.overhead)) ∈ blocks')
    (hUnused : ∀ p ∈ s.live, p.1 - rev.blockHeaderSize ≠ a) :
    (∀ p ∈ (a + (rev.blockHeaderSize : Int), n) :: s.live,
      (p.1 - rev.blockHeaderSize, .normal (p.2 + rev.overhead)) ∈ blocks') ∧
    (((a + (rev.blockHeaderSize : Int), n) :: s.live).map Prod.fst).Nodup := by
  constructor
  · rintro p (_ | ⟨_, hp⟩)
    · rw [Int.add_sub_cancel]
      exact hNew
    · exact h.live_kept hChanges hp (hUnused p hp)
  · refine List.nodup_cons.mpr ⟨fun hMem => ?_, h.liveNodup⟩
    obtain ⟨p, hp, hAddr⟩ := List.mem_map.mp hMem
    apply hUnused p hp
    rw [hAddr]
    omega

theorem Kept.live_filter (h : Kept rev sig s blocks free)
    (hChanges : Changes v d a blocks blocks' free') :
    (∀ p ∈ s.live.filter (fun p => p.1 ≠ a + (rev.blockHeaderSize : Int)),
      (p.1 - rev.blockHeaderSize, .normal (p.2 + rev.overhead)) ∈ blocks') ∧
    ((s.live.filter fun p => p.1 ≠ a + (rev.blockHeaderSize : Int)).map Prod.fst).Nodup := by
  constructor
  · intro p hp
    obtain ⟨hp, hne⟩ := List.mem_filter.mp hp
    apply h.live_kept hChanges hp
    intro hSame
    apply of_decide_eq_true hne
    omega
  · exact h.liveNodup.sublist (List.filter_sublist.map Prod.fst)

end Objects

variable [DecidableEq ι]

theorem Kept.test (h : Kept rev sig s blocks free) (i : ι) :
    Kept rev sig (s.put i (s.view i).testFileHeader) blocks free := by
  have hSize : (sizeOfFileHeader : Int) ≤ (s.view i).fileSize := by
    have hLe := rev.sizeOfFileHeader_le
    have hHeader : (rev.fileHeaderSize : Int) ≤ s.fileSize := h.holds.fileHeaderSize_le
    change (sizeOfFileHeader : Int) ≤ s.fileSize
    omega
  obtain ⟨hFile, hFileSize, hHeader⟩ := testFileHeader_eq hSize
  have hDisk : (s.put i (s.view i).testFileHeader).disk rev = s.disk rev := by
    rw [disk, put, hFile, hFileSize]
    rfl
  refine ⟨?_, h.signature, ?_, fun j => ?_, h.live, h.liveNodup, h.allocated⟩
  · rw [hDisk]
    exact h.holds
  · rw [hDisk]
    exact h.diskSig
  · rw [hDisk]
    by_cases hj : j = i
    · subst hj
      rw [put]
      dsimp only
      rw [Function.update_self]
      rcases hHeader with hSame | ⟨hSame, hRev⟩
      · rw [hSame]
        exact h.handles j
      · dsimp only
        rw [hSame, hRev]
        exact ⟨(congrArg revOfSig h.diskSig).trans h.signature.1, h.diskSig, rfl⟩
    · rw [put]
      dsimp only
      rw [Function.update_of_ne hj]
      exact h.handles j

theorem Kept.heap (h : Kept rev sig s blocks free) {i : ι} {position : Int} {c : HeapCall}
    (hMeets : Meets rev (.heap i position c) s) :
    ∃ blocks' free', Kept rev sig (sharedCalls.step (.heap i position c) s).2 blocks' free' := by
  obtain ⟨⟨hFsFptr, hEof⟩, hAllowed⟩ := hMeets
  obtain ⟨hRev, hSig, hStart⟩ := h.handles i
  have hView : (s.view i).Holds blocks free := h.holds.of_same rfl rfl hRev hFsFptr hEof hStart
  obtain ⟨a, blocks', free', hChanges, hEffect⟩ := HeapCall.step_effect _ hView hAllowed
  have hBlockSize : (s.view i).blockHeaderSize = rev.blockHeaderSize :=
    congrArg Revision.blockHeaderSize hRev
  have hOverhead : (s.view i).overhead = rev.overhead := congrArg Revision.overhead hRev
  simp only [sharedCalls]
  generalize heapCalls.step (position, c) (s.view i) = r at hChanges hEffect ⊢
  obtain ⟨reply, d⟩ := r
  dsimp only at hChanges hEffect ⊢
  obtain ⟨hFs', hEof', hStart', hSig'⟩ := disk_header hChanges (by
    change (s.handles i).fileHeader.gxdSig.1 < _ ∧ (s.handles i).fileHeader.gxdSig.2 < _
    rw [hSig]
    exact h.signature.2) hFsFptr.symm hEof.symm hStart.symm (h.diskSig.trans hSig.symm)
  have hSigView : d.fileHeader.gxdSig = sig := hChanges.sig.trans hSig
  have hStartView : d.fileHeader.gxdHsFptr = (s.disk rev).fileHeader.gxdHsFptr :=
    hChanges.start.trans hStart
  have hPut (live : List (Int × Nat)) (allocated : List Int)
      (hLive : ∀ p ∈ live, (p.1 - rev.blockHeaderSize, .normal (p.2 + rev.overhead)) ∈ blocks')
      (hNodup : (live.map Prod.fst).Nodup)
      (hAllocated : ∀ a ∈ allocated, a - rev.blockHeaderSize ∈ blocks'.map Prod.fst) :
      Kept rev sig { s.put i d with live := live, allocated := allocated } blocks' free' := by
    refine ⟨?_, h.signature, hSig'.trans hSigView, fun j => ?_, hLive, hNodup, hAllocated⟩
    · exact hChanges.holds.of_same rfl rfl (hChanges.rev.trans hRev).symm hFs' hEof' hStart'
    · by_cases hj : j = i
      · subst hj
        simp only [put, Function.update_self]
        exact ⟨hChanges.rev.trans hRev, hSigView, hStart'.symm⟩
      · simp only [put, Function.update_of_ne hj]
        obtain ⟨hRevJ, hSigJ, hStartJ⟩ := h.handles j
        exact ⟨hRevJ, hSigJ, (hStartJ.trans hStartView.symm).trans hStart'.symm⟩
  have hStarts (x) (hx : x ∈ s.allocated) := h.allocated_kept hChanges hx
  have hFilter := h.live_filter hChanges
  refine ⟨blocks', free', ?_⟩
  cases hEffect with
  | @allocated bytes _ new hFree =>
    rw [hOverhead] at new
    rw [hBlockSize]
    obtain ⟨hLive, hNodup⟩ := h.live_cons hChanges new fun p hp hSame => by
      have hIsFree := hFree _ (hSame ▸ h.live p hp)
      rw [BlockHeader.normal_isFree] at hIsFree
      cases hIsFree
    refine hPut _ _ hLive hNodup ?_
    rintro x (_ | ⟨_, hx⟩)
    · rw [Int.add_sub_cancel]
      exact List.mem_map_of_mem new
    · exact hStarts x hx
  | refused target same =>
    have hBlocks : blocks' = blocks := by
      rw [← hChanges.holds.blocks_eq, same, hView.blocks_eq]
    have hRecord : record (s.put i d) d c (.flag false) = s.put i d := by cases c <;> rfl
    rw [hRecord]
    exact hPut s.live s.allocated (hBlocks ▸ h.live) h.liveNodup hStarts
  | deleted | removed =>
    rw [hBlockSize]
    refine hPut _ _ hFilter.1 hFilter.2 hStarts
  | undeleted hdr old hFree new =>
    have hLength := (h.holds.sound _ old).overhead
    obtain ⟨n, hn⟩ : ∃ n, hdr.blockLength = n + rev.overhead :=
      ⟨hdr.blockLength - rev.overhead, (Nat.sub_add_cancel hLength).symm⟩
    rw [hn] at new
    have hObject : d.objectLength 0 (a + rev.blockHeaderSize) = n := by
      have hSize : d.blockHeaderSize = rev.blockHeaderSize := by
        rw [blockHeaderSize, hChanges.rev, ← hBlockSize, blockHeaderSize]
      rw [← hSize]
      refine hChanges.holds.objectLength_eq ?_ 0
      rwa [overhead, hChanges.rev, ← overhead, hOverhead]
    obtain ⟨hLive, hNodup⟩ := h.live_cons hChanges new fun _ hp => h.live_ne old hFree hp
    rw [hBlockSize]
    exact hPut ((_, d.objectLength 0 _) :: s.live) _ (by rwa [hObject]) (by rwa [hObject]) hStarts

/-- As long as the objects look at the header on disk before they change the heap, it is one heap. -/
theorem sharedCalls_consistent (rev : Revision) {staticSize : Nat}
    (hStatic : staticSize + rev.fileHeaderSize < 2 ^ 63) {calls : List (SharedCall ι)}
    (hCalls : sharedCalls.Along (Meets rev) calls (create rev staticSize)) :
    (sharedCalls.run calls (create rev staticSize)).2.Consistent rev := by
  obtain ⟨sig, hKept⟩ := create_kept (ι := ι) rev hStatic
  have hRun := Machine.run_invariant (I := fun s => ∃ blocks free, Kept rev sig s blocks free)
    (P := Meets rev) ?_ hKept hCalls
  · obtain ⟨blocks, free, h⟩ := hRun
    exact h.consistent
  · rintro e s ⟨blocks, free, h⟩ hMeets
    cases e with
    | heap i position c => exact h.heap hMeets
    | testFileHeader i => exact ⟨blocks, free, h.test i⟩

/-- Two objects, of which each tests the header when the other has made a call. -/
theorem sharedCalls_consistent_E :
    (sharedCalls.run
      [.heap (0 : Fin 2) 0 (.alloc 8 .none), .testFileHeader 1, .heap 1 0 (.alloc 8 .none),
        .heap 1 176 (.delete 136), .testFileHeader 0, .heap 0 0 (.alloc 8 .bestFit)]
      (create .E 0)).2.Consistent .E :=
  sharedCalls_consistent .E (by decide : 0 + Revision.E.fileHeaderSize < 2 ^ 63)
    (by decide +kernel)

/-- The object that did not make the first call allocates the same block again. -/
theorem sharedCalls_overlap :
    ¬ (sharedCalls.run [.heap (0 : Fin 2) 0 (.alloc 8 .none), .heap 1 0 (.alloc 8 .none)]
      (create .E 0)).2.Consistent .E := by
  intro h
  have hLive : (sharedCalls.run [.heap (0 : Fin 2) 0 (.alloc 8 .none), .heap 1 0 (.alloc 8 .none)]
      (create .E 0)).2.live = [(136, 8), (136, 8)] := by
    decide +kernel
  have hApart := h.apart
  rw [hLive] at hApart
  revert hApart
  decide

end SharedFile

end DataReel
