import DataReel.Database.Served

/-! # `Alloc` near the limits of its types

`Alloc` adds the overhead of a block to the byte count and the sum to the end of
the file, and checks neither sum. An object is where `Alloc` says if a free block
is reclaimed for it, or if memory and file have room for a new one.
-/

namespace DataReel

/-- There is a free block that is reclaimed for so many bytes. -/
def Database.Reusable (d : Database) (bytes : Nat) : ReclaimMethod → Prop
  | .none => False
  | .bestFit => ∃ b ∈ d.blocks, b.2.isFree = true ∧ b.2.blockLength = bytes
  | .firstFit => ∃ b ∈ d.blocks, b.2.isFree = true ∧
      (b.2.blockLength = bytes ∨ bytes + d.overhead < b.2.blockLength)

instance (d : Database) (bytes : Nat) : ∀ method, Decidable (d.Reusable bytes method)
  | .none => inferInstanceAs (Decidable False)
  | .bestFit => inferInstanceAs
      (Decidable (∃ b ∈ d.blocks, b.2.isFree = true ∧ b.2.blockLength = bytes))
  | .firstFit => inferInstanceAs (Decidable (∃ b ∈ d.blocks, b.2.isFree = true ∧
      (b.2.blockLength = bytes ∨ bytes + d.overhead < b.2.blockLength)))

namespace Device

open Database

/-- As many turns as the list can have. -/
def turns (s : Device) : Nat := s.db.fileSize.toNat + 1

/-- A free block is reclaimed for an object of so many bytes, or memory and file have room for it. -/
def HasRoom (bytes : Nat) (method : ReclaimMethod) (s : Device) : Prop :=
  s.db.Reusable (bytes + s.db.overhead) method ∨
    (bytes + s.db.overhead ≤ s.memory ∧
      s.db.fileHeader.gxdEof + (bytes + s.db.overhead : Nat) < 2 ^ 63)

instance (bytes : Nat) (method : ReclaimMethod) (s : Device) : Decidable (HasRoom bytes method s) :=
  inferInstanceAs (Decidable (_ ∨ _))

/-- An object at an address, with the heap before it was allocated. -/
structure Placed (s t : Device) (a : Int) (bytes : Nat) : Prop where
  below : a + bytes ≤ t.db.fileHeader.gxdEof
  length : ∀ position, t.db.objectLength position a = bytes
  apart : ∃ hdr, (a - t.db.blockHeaderSize, hdr) ∈ t.db.blocks ∧
    ∀ b, (b ∈ t.db.blocks ∧ b.1 ≠ a - t.db.blockHeaderSize) ∨ (b ∈ s.db.blocks ∧ b.2.isFree = false) →
      b.1 + b.2.blockLength ≤ a - t.db.blockHeaderSize ∨
        a - t.db.blockHeaderSize + hdr.blockLength ≤ b.1

/-- `Alloc` returns 0 and leaves the end of the file and the stats as they were, or it returns the address
of an object. -/
def AllocHolds (position : Int) (bytes : Nat) (method : ReclaimMethod) (s : Device) : Prop :=
  match alloc s.turns position bytes method s with
  | .ok a t => Placed s t a bytes
  | .error e t => e.byFile = true ∧ t.db.fileHeader.gxdEof = s.db.fileHeader.gxdEof ∧
      t.db.fileStats = s.db.fileStats

section Room

variable {d : Database} {blocks : List (Int × BlockHeader)} {free : List Int} {n bytes : Nat}
  {position : Int} {method : ReclaimMethod}

theorem reusable_lt (h : d.Holds blocks free) (hReusable : d.Reusable bytes method) : bytes < 2 ^ 63 := by
  cases method with
  | none => cases hReusable
  | bestFit =>
    obtain ⟨b, hb, -, hLength⟩ := hReusable
    rw [h.blocks_eq] at hb
    rw [← hLength]
    exact h.blockLength_lt hb
  | firstFit =>
    obtain ⟨b, hb, -, hLength⟩ := hReusable
    rw [h.blocks_eq] at hb
    have hLimit := h.blockLength_lt hb
    omega

theorem isFree_of_null (h : d.Holds blocks free) (hNull : d.fileHeader.gxdFsFptr = 0)
    {b : Int × BlockHeader} (hb : b ∈ blocks) : b.2.isFree = false := by
  by_contra hUse
  have hFree := (h.mem_free_iff hb).mpr (Bool.eq_true_of_not_eq_false hUse)
  have hChain := h.chain
  cases free with
  | nil => cases hFree
  | cons x post =>
    obtain ⟨hdr, hx, -⟩ := (h.free_iff x).mp List.mem_cons_self
    have hPos := (h.bounds hx).1
    rw [← hChain.1] at hNull
    exact hPos.ne' hNull

theorem rejected_of_walk (h : d.Holds blocks free) (accept : Int → BlockHeader → Bool)
    {passed : List (Int × BlockHeader)} (hPassed : ∀ b ∈ passed, b ∈ blocks ∧ accept b.1 b.2 = false)
    (hAll : passed.map Prod.fst = free) {b : Int × BlockHeader} (hb : b ∈ blocks)
    (hFree : b.2.isFree = true) : accept b.1 b.2 = false := by
  have hListed := (h.mem_free_iff hb).mpr hFree
  rw [← hAll] at hListed
  obtain ⟨c, hc, hAddr⟩ := List.mem_map.mp hListed
  obtain rfl := h.tiles.unique (fun c => h.blockLength_pos) (hPassed c hc).1 hb hAddr
  exact (hPassed c hc).2

/-- A block is found for `Alloc` in the list. -/
def Takes (d : Database) (bytes : Nat) : ReclaimMethod → BlockHeader → Bool
  | .none, _ => false
  | .bestFit, hdr => hdr.blockLength = bytes
  | .firstFit, hdr => d.fits bytes hdr

theorem takes_iff (hBytes : bytes < 2 ^ 63) {hdr : BlockHeader} (hLength : hdr.blockLength < 2 ^ 63) :
    Takes d bytes .firstFit hdr = true ↔
      hdr.blockLength = bytes ∨ bytes + d.overhead < hdr.blockLength := by
  rw [Takes, Database.fits, Bool.or_eq_true, decide_eq_true_iff, decide_eq_true_iff,
    unusedLen_eq hBytes hLength]
  split <;> omega

theorem reusable_iff (h : d.Holds blocks free) (hBytes : bytes < 2 ^ 63) : d.Reusable bytes method ↔
    ∃ b ∈ blocks, b.2.isFree = true ∧ Takes d bytes method b.2 = true := by
  cases method with
  | none => simp [Database.Reusable, Takes]
  | bestFit => simp [Database.Reusable, Takes, h.blocks_eq]
  | firstFit =>
    rw [Database.Reusable, h.blocks_eq]
    refine exists_congr fun b => and_congr_right fun hb => and_congr_right fun _ => ?_
    exact (takes_iff hBytes (h.blockLength_lt hb)).symm

theorem not_reusable (h : d.Holds blocks free) (hn : d.fileSize.toNat < n) (hBytes : bytes < 2 ^ 63)
    (hNone : d.reclaim n position bytes method = some (0, d)) : ¬ d.Reusable bytes method := by
  rw [reusable_iff h hBytes]
  rintro ⟨b, hb, hFree, hTakes⟩
  have hNull : d.fileHeader.gxdFsFptr ≠ 0 := by
    intro hNull
    rw [isFree_of_null h hNull hb] at hFree
    cases hFree
  cases method with
  | none => cases hTakes
  | bestFit =>
    obtain ⟨r, hWalk, hPassed, hEnd⟩ := h.walk_eq (fun _ hdr => hdr.blockLength = bytes)
      (fun position a => seekTo_pos position) hn position
    rw [Database.reclaim, if_neg hNull, Database.reclaimBestFit, if_neg h.gxdFsFptr_ne, hWalk] at hNone
    rcases hEnd with ⟨-, hAll⟩ | ⟨a, hdr, post, hFound, -, ha, -⟩
    · have hNot := rejected_of_walk h (fun _ hdr => hdr.blockLength = bytes) hPassed hAll hb hFree
      cases hNot.symm.trans hTakes
    · have hPos := (h.bounds ha).1
      rw [Option.map_some, hFound] at hNone
      exact hPos.ne' (congrArg Prod.fst (Option.some.inj hNone))
  | firstFit =>
    obtain ⟨r, hWalk, hPassed, hEnd⟩ := h.walk_eq (fun _ hdr => d.fits bytes hdr)
      (fun position a => seekTo_pos position) hn position
    rw [Database.reclaim, if_neg hNull, Database.reclaimFirstFit, if_neg h.gxdFsFptr_ne, hWalk] at hNone
    rcases hEnd with ⟨-, hAll⟩ | ⟨a, hdr, post, hFound, -, ha, -⟩
    · have hNot := rejected_of_walk h (fun _ hdr => d.fits bytes hdr) hPassed hAll hb hFree
      cases hNot.symm.trans hTakes
    · have hPos := (h.bounds ha).1
      rw [Option.map_some, hFound] at hNone
      exact hPos.ne' (congrArg Prod.fst (Option.some.inj hNone))

theorem found_of_firstFit (h : d.Holds blocks free) (hn : d.fileSize.toNat < n) {memory : Nat} {a : Int}
    {t : Device} (hRun : reclaimFirstFit n position bytes (d.served memory) = .ok a t) (hFound : a ≠ 0) :
    ∃ hdr, (a, hdr) ∈ blocks ∧ hdr.isFree = true ∧ d.fits bytes hdr = true ∧
      (hdr.blockLength = bytes ∨ d.fileStats.numBlocks < t.db.fileStats.numBlocks) := by
  obtain ⟨⟨passed, ending⟩, hWalk, hPassed, hEnd⟩ := h.walk_eq (fun _ hdr => d.fits bytes hdr)
    (fun position a => seekTo_pos position) hn position
  have hServed := walk_served seekTo (fun _ hdr => d.fits bytes hdr) n d.fileHeader.gxdFsFptr position d memory
  rw [hWalk] at hServed
  rw [reclaimFirstFit, Exec.bind_ok (get_served d memory), if_neg h.gxdFsFptr_ne] at hRun
  rcases hEnd with ⟨hNone, -⟩ | ⟨address, hdr, post, hSome, hList, hb, hAccept⟩
  · obtain rfl : ending = .none := hNone
    rw [Exec.bind_ok hServed] at hRun
    cases hRun
    exact absurd rfl hFound
  · obtain rfl : ending = .found address hdr := hSome
    rw [Exec.bind_ok hServed] at hRun
    have hFree : hdr.isFree = true := by
      rw [← h.mem_free_iff hb, hList]
      exact List.mem_append_right _ List.mem_cons_self
    dsimp only at hRun
    split at hRun
    · rename_i hExact
      obtain ⟨_, u, -, hEnd⟩ := Exec.of_bind_ok hRun
      cases hEnd
      exact ⟨hdr, hb, hFree, hAccept, .inl hExact⟩
    · obtain ⟨_, u, hSplit, hEnd⟩ := Exec.of_bind_ok hRun
      cases hEnd
      exact ⟨hdr, hb, hFree, hAccept, .inr (split_numBlocks hSplit)⟩

theorem found_of_bestFit (h : d.Holds blocks free) (hn : d.fileSize.toNat < n) {memory : Nat} {a : Int}
    {t : Device} (hRun : reclaimBestFit n position bytes (d.served memory) = .ok a t) (hFound : a ≠ 0) :
    ∃ hdr, (a, hdr) ∈ blocks ∧ hdr.isFree = true ∧ hdr.blockLength = bytes := by
  obtain ⟨⟨passed, ending⟩, hWalk, hPassed, hEnd⟩ := h.walk_eq (fun _ hdr => hdr.blockLength = bytes)
    (fun position a => seekTo_pos position) hn position
  have hServed := walk_served seekTo (fun _ hdr => hdr.blockLength = bytes) n d.fileHeader.gxdFsFptr
    position d memory
  rw [hWalk] at hServed
  rw [reclaimBestFit, Exec.bind_ok (get_served d memory), if_neg h.gxdFsFptr_ne] at hRun
  rcases hEnd with ⟨hNone, -⟩ | ⟨address, hdr, post, hSome, hList, hb, hAccept⟩
  · obtain rfl : ending = .none := hNone
    rw [Exec.bind_ok hServed] at hRun
    dsimp only at hRun
    rw [bestFit_eq rfl, if_pos rfl] at hRun
    cases hRun
    exact absurd rfl hFound
  · obtain rfl : ending = .found address hdr := hSome
    rw [Exec.bind_ok hServed] at hRun
    obtain ⟨_, u, -, hEnd⟩ := Exec.of_bind_ok hRun
    cases hEnd
    refine ⟨hdr, hb, ?_, of_decide_eq_true hAccept⟩
    rw [← h.mem_free_iff hb, hList]
    exact List.mem_append_right _ List.mem_cons_self

theorem found_of_reclaim (h : d.Holds blocks free) (hn : d.fileSize.toNat < n) {memory : Nat} {a : Int}
    {t : Device} (hRun : reclaim n position bytes method (d.served memory) = .ok a t) (hFound : a ≠ 0) :
    ∃ hdr, (a, hdr) ∈ blocks ∧ hdr.isFree = true ∧ Takes d bytes method hdr = true ∧
      (hdr.blockLength = bytes ∨ d.fileStats.numBlocks < t.db.fileStats.numBlocks) := by
  cases method with
  | none =>
    rw [reclaim, Exec.bind_ok (get_served d memory), ite_self] at hRun
    cases hRun
    exact absurd rfl hFound
  | bestFit =>
    rw [reclaim, Exec.bind_ok (get_served d memory)] at hRun
    split at hRun
    · cases hRun
      exact absurd rfl hFound
    · obtain ⟨hdr, hb, hFree, hExact⟩ := found_of_bestFit h hn (orZero_ok hRun hFound) hFound
      exact ⟨hdr, hb, hFree, decide_eq_true hExact, .inl hExact⟩
  | firstFit =>
    rw [reclaim, Exec.bind_ok (get_served d memory)] at hRun
    split at hRun
    · cases hRun
      exact absurd rfl hFound
    · exact found_of_firstFit h hn (orZero_ok hRun hFound) hFound

end Room

/-! ## Where there is room -/

section Placed

variable {d d' : Database} {blocks blocks' : List (Int × BlockHeader)} {free free' : List Int}
  {a position : Int} {bytes memory : Nat} {method : ReclaimMethod}

theorem placed_of_changes (h : d.Holds blocks free) (hChanges : Changes d d' a blocks blocks' free')
    (hNew : (a, .normal (bytes + d.overhead)) ∈ blocks')
    (hFree : ∀ hdr, (a, hdr) ∈ blocks → hdr.isFree = true) (memory : Nat) :
    Placed (d.served memory) (d'.served memory) (a + d.rev.blockHeaderSize) bytes := by
  have hHolds := hChanges.holds
  have hSize : d'.blockHeaderSize = d.rev.blockHeaderSize :=
    congrArg Revision.blockHeaderSize hChanges.rev
  have hOverhead : d'.overhead = d.overhead := congrArg Revision.overhead hChanges.rev
  rw [← hOverhead] at hNew
  have hBounds := hHolds.bounds hNew
  rw [hHolds.fileSize] at hBounds
  constructor
  · have hLe : d.rev.blockHeaderSize ≤ d'.overhead := by
      rw [← hSize]
      exact Nat.le_add_right _ _
    have hEnd : a + (bytes + d'.overhead : Nat) ≤ d'.fileHeader.gxdEof := hBounds.2.2.1
    change a + d.rev.blockHeaderSize + bytes ≤ d'.fileHeader.gxdEof
    omega
  · intro position
    rw [← hSize]
    exact hHolds.objectLength_eq hNew position
  · refine ⟨.normal (bytes + d'.overhead), ?_, ?_⟩
    · rw [hSize, Int.add_sub_cancel, hHolds.blocks_eq]
      exact hNew
    · intro b hb
      rw [hSize, Int.add_sub_cancel] at hb ⊢
      have hMem : b ∈ blocks' ∧ b.1 ≠ a := by
        rcases hb with ⟨hb, hne⟩ | ⟨hb, hUse⟩
        · rw [hHolds.blocks_eq] at hb
          exact ⟨hb, hne⟩
        · rw [h.blocks_eq] at hb
          have hne : b.1 ≠ a := by
            rintro rfl
            rw [hFree b.2 hb] at hUse
            cases hUse
          exact ⟨hChanges.inUse b hb hUse hne, hne⟩
      exact (hHolds.tiles.apart_of_ne hMem.1 hNew hMem.2).symm

theorem room_of_hasRoom (h : d.Holds blocks free) (hRoom : HasRoom bytes method (d.served memory))
    {n : Nat} (hn : d.fileSize.toNat < n) (position : Int) : bytes + d.overhead < 2 ^ 63 ∧
      (d.reclaim n position (bytes + d.overhead) method = some (0, d) →
        d.fileHeader.gxdEof + (bytes + d.overhead : Nat) < 2 ^ 63 ∧ bytes + d.overhead ≤ memory) := by
  rcases hRoom with hReusable | ⟨hMemory, hLimit⟩
  · have hLt := reusable_lt h hReusable
    exact ⟨hLt, fun hNone => absurd hReusable (not_reusable h hn hLt hNone)⟩
  · have hEof := gxdEof_nonneg h
    refine ⟨?_, fun _ => ⟨hLimit, hMemory⟩⟩
    change d.fileHeader.gxdEof + (bytes + d.overhead : Nat) < 2 ^ 63 at hLimit
    omega

theorem allocHolds_of_hasRoom (h : d.Holds blocks free) (hRoom : HasRoom bytes method (d.served memory)) :
    AllocHolds position bytes method (d.served memory) := by
  have hTurns : d.fileSize.toNat < (d.served memory).turns := Nat.lt_succ_self _
  obtain ⟨hBytes, hFit⟩ := room_of_hasRoom h hRoom hTurns position
  obtain ⟨a, d', blocks', free', hAlloc, hChanges, hNew, hFree⟩ :=
    h.alloc_room hTurns position method hBytes fun hNone => (hFit hNone).1
  rw [AllocHolds, alloc_served h hTurns hBytes hFit hAlloc]
  exact placed_of_changes h hChanges hNew hFree memory

end Placed

/-! ## Where there is none -/

section NoRoom

variable {s t : Device} {e : CallFailure} {a address : Int} {bytes : Nat}

theorem write_room {f : Database → Database} {u : Unit} (hRun : write address bytes f s = .ok u t) :
    bytes = 0 ∨ address + bytes < 2 ^ 63 := by
  rw [write, Exec.bind_ok (Exec.get_run s)] at hRun
  split at hRun
  · cases hRun
  split at hRun
  · cases hRun
  split at hRun
  · rename_i hBytes
    exact .inl hBytes
  obtain ⟨r, s₁, -, hRest⟩ := Exec.of_bind_ok hRun
  cases r with
  | failed n =>
    obtain ⟨_, s₂, -, hEnd⟩ := Exec.of_bind_ok hRest
    cases hEnd
  | done =>
    dsimp only at hRest
    split at hRest
    · rename_i hLimit
      exact .inr hLimit
    · cases hRest

theorem extend_room (hRun : extend bytes s = .ok a t) : a = s.db.fileHeader.gxdEof ∧
    t.db.fileHeader.gxdEof = fau (s.db.fileHeader.gxdEof + bytes) ∧ bytes ≤ s.memory ∧
      (bytes = 0 ∨ s.db.fileHeader.gxdEof + bytes < 2 ^ 63) := by
  rw [extend, Exec.bind_ok (Exec.get_run s), Exec.bind_ok (update_run _ s)] at hRun
  split at hRun
  · cases hRun
  rename_i hMemory
  obtain ⟨_, s₁, hWrite, hRest⟩ := Exec.of_bind_ok hRun
  have hZeros : Quiet (write s.db.fileHeader.gxdEof bytes
      fun d => d.writeZeros s.db.fileHeader.gxdEof bytes) := quiet_write _ _ (fun _ => rfl) fun _ => rfl
  have hHeader := (hZeros.ok hWrite).fileHeader
  cases hRest
  refine ⟨rfl, ?_, Nat.not_lt.mp hMemory, write_room hWrite⟩
  change s₁.db.fileHeader.gxdEof = _
  rw [hHeader]
  rfl

theorem reclaims_mark (bytes : Nat) (address : Int) : Reclaims (mark bytes address) := by
  have hRaise : Reclaims (update fun d => d.raiseHbFptr address) := by
    apply reclaims_update
    · intro d
      rw [raiseHbFptr]
      split <;> rfl
    · intro d
      rw [raiseHbFptr]
      split <;> exact Int.le_refl _
  have hEnd : Reclaims (update (fun d => d.raiseHbFptr address) >>= fun _ => ignore writeFileHdr) :=
    hRaise.bind fun _ => quiet_writeFileHdr.reclaims.ignore
  have hLock : Quiet (write (address + sizeOfBlockHeader) sizeOfRecordLockHeader fun d =>
      d.writeWords (address + sizeOfBlockHeader) [0, 0, 0]) := quiet_write _ _ (fun _ => rfl) fun _ => rfl
  refine (quiet_writeBlockHdr _ _).reclaims.bind fun _ => quiet_get.reclaims.bind fun s => ?_
  exact (hLock.reclaims.bind fun _ => hEnd).ite hEnd

theorem mark_ok {u : Unit} (hRun : mark bytes address s = .ok u t) :
    t.db.fileHeader.gxdEof = s.db.fileHeader.gxdEof := by
  have hEnds : Program.Ends (mark bytes address) s (fun _ => Reclaiming s) (Reclaiming s) :=
    reclaims_mark bytes address s s ⟨rfl, rfl, rfl, Int.le_refl _⟩
  rw [Program.Ends, hRun] at hEnds
  exact hEnds.gxdEof

theorem fau_lt (x : Int) : fau x < 2 ^ 63 := by
  have hLt := Int.bmod_lt (x := x) (m := 2 ^ 64) (by decide)
  rw [fau]
  omega

variable {d : Database} {blocks : List (Int × BlockHeader)} {free : List Int}
  {method : ReclaimMethod} {memory : Nat} {position : Int}

/-- A block is taken from the list without room in it for so many bytes that a sum has wrapped. -/
theorem wrapped_of_takes (h : d.Holds blocks free) (hBytes : bytes < 2 ^ 64)
    (hRoom : ¬ d.Reusable (bytes + d.overhead) method) {hdr : BlockHeader} (hb : (a, hdr) ∈ blocks)
    (hFree : hdr.isFree = true) (hTakes : Takes d ((bytes + d.overhead) % 2 ^ 64) method hdr = true) :
    2 ^ 64 - 128 ≤ bytes ∧ hdr.blockLength ≠ (bytes + d.overhead) % 2 ^ 64 := by
  have hOverhead := overhead_le d
  have hLength : d.overhead ≤ hdr.blockLength := (h.sound _ hb).overhead
  have hMem : (a, hdr) ∈ d.blocks := by
    rw [h.blocks_eq]
    exact hb
  by_cases hSum : bytes + d.overhead < 2 ^ 64
  · rw [Nat.mod_eq_of_lt hSum] at hTakes ⊢
    cases method with
    | none => cases hTakes
    | bestFit => exact absurd ⟨(a, hdr), hMem, hFree, of_decide_eq_true hTakes⟩ hRoom
    | firstFit =>
      have hNot : ¬ (hdr.blockLength = bytes + d.overhead ∨
          bytes + d.overhead + d.overhead < hdr.blockLength) :=
        fun hFits => hRoom ⟨(a, hdr), hMem, hFree, hFits⟩
      rw [not_or] at hNot
      rw [Takes, Database.fits, Bool.or_eq_true, decide_eq_true_iff, decide_eq_true_iff] at hTakes
      have hUnused := hTakes.resolve_left hNot.1
      rw [unusedLen] at hUnused
      split at hUnused <;> omega
  · omega

theorem changed_of_error (h : d.Holds blocks free) (hBytes : bytes < 2 ^ 64)
    (hRoom : ¬ HasRoom bytes method (d.served memory))
    (hRun : alloc (d.served memory).turns position bytes method (d.served memory) = .error e t)
    (hFile : e.byFile = true) :
    t.db.fileHeader.gxdEof ≠ d.fileHeader.gxdEof ∨ t.db.fileStats ≠ d.fileStats := by
  have hTurns : d.fileSize.toNat < (d.served memory).turns := Nat.lt_succ_self _
  have hMax : (bytes + d.overhead) % 2 ^ 64 < 2 ^ 64 := Nat.mod_lt _ (by decide)
  rw [alloc, Exec.bind_ok (get_served d memory), if_pos rfl] at hRun
  rcases Exec.of_bind_error hRun with hReclaim | ⟨found, s₁, hReclaim, hRest⟩
  · rw [reclaim_error hReclaim] at hFile
    cases hFile
  have hReclaimed := reclaim_ok hReclaim
  split at hRest
  · rcases Exec.of_bind_error hRest with hExtend | ⟨address, s₂, hExtend, hEnd⟩
    · obtain ⟨hRaised, hSeek⟩ := extend_error hExtend hFile hReclaimed.writable
      have hEof := gxdEof_nonneg h
      have hOld : s₁.db.fileHeader.gxdEof = d.fileHeader.gxdEof := hReclaimed.gxdEof
      rw [hOld] at hSeek
      have hSome := hSeek.resolve_left fun hNeg => Int.not_lt.mpr hEof hNeg.1
      have hNew : t.db.fileHeader.gxdEof = fau (s₁.db.fileHeader.gxdEof +
          ((bytes + d.overhead) % 2 ^ 64 : Nat)) := congrArg FileHeader.gxdEof hRaised.fileHeader
      rw [hNew, hOld]
      exact .inl (fau_add_ne hSome hMax)
    · have hMore := lt_of_le_of_lt hReclaimed.numBlocks (extend_ok hExtend).1
      rcases Exec.of_bind_error hEnd with hMark | ⟨_, s₃, -, hPure⟩
      · rw [← (mark_error hMark).fileStats] at hMore
        exact .inr fun hSame => hMore.ne' (congrArg FileStatsHeader.numBlocks hSame)
      · cases hPure
  · rename_i hFound
    obtain ⟨hdr, hb, hFree, hTakes, hGrown⟩ := found_of_reclaim h hTurns hReclaim hFound
    have hMore := hGrown.resolve_left
      (wrapped_of_takes h hBytes (fun hReusable => hRoom (.inl hReusable)) hb hFree hTakes).2
    rw [Exec.bind_ok (show (pure found : DeviceM Int) s₁ = .ok found s₁ from rfl)] at hRest
    rcases Exec.of_bind_error hRest with hMark | ⟨_, s₂, -, hPure⟩
    · rw [← (mark_error hMark).fileStats] at hMore
      exact .inr fun hSame => hMore.ne' (congrArg FileStatsHeader.numBlocks hSame)
    · cases hPure

theorem beyond_of_ok (h : d.Holds blocks free) (hBytes : bytes < 2 ^ 64)
    (hRoom : ¬ HasRoom bytes method (d.served memory))
    (hRun : alloc (d.served memory).turns position bytes method (d.served memory) = .ok a t) :
    t.db.fileHeader.gxdEof < a + bytes := by
  have hTurns : d.fileSize.toNat < (d.served memory).turns := Nat.lt_succ_self _
  have hOverhead := overhead_le d
  have hEof := gxdEof_nonneg h
  have hLimit := h.limit
  rw [alloc, Exec.bind_ok (get_served d memory), if_pos rfl] at hRun
  obtain ⟨found, s₁, hReclaim, hRest⟩ := Exec.of_bind_ok hRun
  have hReclaimed := reclaim_ok hReclaim
  have hOld : s₁.db.fileHeader.gxdEof = d.fileHeader.gxdEof := hReclaimed.gxdEof
  have hMemory : s₁.memory = memory := hReclaimed.memory
  split at hRest
  · obtain ⟨address, s₂, hExtend, hEnd⟩ := Exec.of_bind_ok hRest
    obtain ⟨_, s₃, hMark, hPure⟩ := Exec.of_bind_ok hEnd
    cases hPure
    obtain ⟨rfl, hNew, hFits, hWritten⟩ := extend_room hExtend
    have hLess : s₂.db.fileHeader.gxdEof < 2 ^ 63 := by
      rw [hNew]
      exact fau_lt _
    rw [mark_ok hMark, hOld]
    change s₂.db.fileHeader.gxdEof < d.fileHeader.gxdEof + (d.blockHeaderSize : Int) + bytes
    have hWrapped : 2 ^ 64 ≤ bytes + d.overhead := by
      by_contra hSum
      have hMod : (bytes + d.overhead) % 2 ^ 64 = bytes + d.overhead := Nat.mod_eq_of_lt (by omega)
      have hPos := Holds.overhead_pos d
      rw [hMemory] at hFits
      rw [hOld] at hWritten
      change (bytes + d.overhead) % 2 ^ 64 ≤ memory at hFits
      change (bytes + d.overhead) % 2 ^ 64 = 0 ∨
        d.fileHeader.gxdEof + ((bytes + d.overhead) % 2 ^ 64 : Nat) < 2 ^ 63 at hWritten
      rw [hMod] at hFits hWritten
      exact hRoom (.inr ⟨hFits, hWritten.resolve_left (by omega)⟩)
    omega
  · rename_i hFound
    obtain ⟨hdr, hb, hFree, hTakes, -⟩ := found_of_reclaim h hTurns hReclaim hFound
    obtain ⟨hMany, -⟩ :=
      wrapped_of_takes h hBytes (fun hReusable => hRoom (.inl hReusable)) hb hFree hTakes
    have hPos := (h.bounds hb).1
    rw [Exec.bind_ok (show (pure found : DeviceM Int) s₁ = .ok found s₁ from rfl)] at hRest
    obtain ⟨_, s₂, hMark, hPure⟩ := Exec.of_bind_ok hRest
    cases hPure
    rw [mark_ok hMark, hOld]
    change d.fileHeader.gxdEof < found + (d.blockHeaderSize : Int) + bytes
    dsimp only at hPos
    omega

theorem not_allocHolds (h : d.Holds blocks free) (hBytes : bytes < 2 ^ 64)
    (hRoom : ¬ HasRoom bytes method (d.served memory)) :
    ¬ AllocHolds position bytes method (d.served memory) := by
  rw [AllocHolds]
  cases hRun : alloc (d.served memory).turns position bytes method (d.served memory) with
  | ok a t => exact fun hPlaced => Int.not_lt.mpr hPlaced.below (beyond_of_ok h hBytes hRoom hRun)
  | error e t =>
    rintro ⟨hFile, hEof, hStats⟩
    rcases changed_of_error h hBytes hRoom hRun hFile with hChanged | hChanged
    · exact hChanged hEof
    · exact hChanged hStats

end NoRoom

/-! ## Runs -/

section Runs

variable {d : Database} {memory : Nat}

/-- There is room for the new object, and a call on an object finds a block at its address if it finds
one. -/
def Within (c : Int × HeapCall) (s : Device) : Prop :=
  match c.2 with
  | .alloc bytes method => HasRoom bytes method s
  | .delete _ | .remove _ | .unDelete _ => HeapCall.Allowed c s.db

instance (s : Device) : ∀ c, Decidable (Within c s)
  | (_, .alloc bytes method) => inferInstanceAs (Decidable (HasRoom bytes method s))
  | (position, .delete a) => inferInstanceAs (Decidable (HeapCall.Allowed (position, .delete a) s.db))
  | (position, .remove a) => inferInstanceAs (Decidable (HeapCall.Allowed (position, .remove a) s.db))
  | (position, .unDelete a) =>
    inferInstanceAs (Decidable (HeapCall.Allowed (position, .unDelete a) s.db))

/-- What `AllocHolds` says of the calls of `Alloc`. -/
def CallHolds (c : Int × HeapCall) (s : Device) : Prop :=
  ∀ bytes method, c.2 = .alloc bytes method → AllocHolds c.1 bytes method s

/-- The heap of an object whose file carries out all requests. -/
def KeptHeap (memory : Nat) (s : Device) : Prop := ∃ d : Database, s = d.served memory ∧ d.Kept

theorem state_of_answers {x : DeviceM Unit} {s : Device} {r : Bool × Database}
    (h : Answers x s memory r) {turns : Device → Nat} {c : Int × HeapCall}
    (hCall : call (turns s) c.1 c.2 s = (x >>= fun _ => pure 1) s) :
    ((deviceCalls turns).step c s).2 = r.2.served memory := by
  dsimp only [deviceCalls]
  rw [hCall]
  rcases h with ⟨-, hOk⟩ | ⟨-, e, hError⟩
  · rw [Exec.bind_ok hOk]
    rfl
  · rw [Exec.bind_error hError]

theorem step_within (c : Int × HeapCall) {s : Device} (h : KeptHeap memory s) (hWithin : Within c s) :
    CallHolds c s ∧ KeptHeap memory ((deviceCalls turns).step c s).2 := by
  obtain ⟨d, rfl, hKept⟩ := h
  obtain ⟨blocks, free, hHolds, hCounts⟩ := hKept
  have hTurns : d.fileSize.toNat < (d.served memory).turns := Nat.lt_succ_self _
  obtain ⟨position, call⟩ := c
  cases call with
  | alloc bytes method =>
    constructor
    · intro bytes' method' hAlloc
      cases hAlloc
      exact allocHolds_of_hasRoom hHolds hWithin
    · obtain ⟨hBytes, hFit⟩ := room_of_hasRoom hHolds hWithin hTurns position
      obtain ⟨a, d', blocks', free', hAlloc, hChanges, -, -⟩ :=
        hHolds.alloc_room hTurns position method hBytes fun hNone => (hFit hNone).1
      refine ⟨d', ?_, blocks', free', hChanges.holds, hChanges.counts hCounts⟩
      dsimp only [deviceCalls, Device.call]
      rw [alloc_served hHolds hTurns hBytes hFit hAlloc]
  | delete a =>
    refine ⟨nofun, _, state_of_answers (delete_served hHolds memory false
      (HeapCall.block_of_allowed hHolds hWithin)) rfl, ?_⟩
    exact (HeapCall.serves_step (position, .delete a) ⟨blocks, free, hHolds, hCounts⟩ hWithin).2
  | remove a =>
    refine ⟨nofun, _, state_of_answers (delete_served hHolds memory true
      (HeapCall.block_of_allowed hHolds hWithin)) rfl, ?_⟩
    exact (HeapCall.serves_step (position, .remove a) ⟨blocks, free, hHolds, hCounts⟩ hWithin).2
  | unDelete a =>
    obtain ⟨r, hUnDelete, hAnswers⟩ := unDelete_served hHolds hTurns memory position a
    refine ⟨nofun, r.2, state_of_answers hAnswers rfl, ?_⟩
    have hNext :=
      (HeapCall.serves_step (position, .unDelete a) ⟨blocks, free, hHolds, hCounts⟩ hWithin).2
    have hStep : heapCalls.step (position, .unDelete a) d = (.flag r.1, r.2) := by
      simp only [heapCalls, show d.unDelete (d.fileSize.toNat + 1) position a = some r from hUnDelete]
    rwa [hStep] at hNext

/-- Along a run whose calls have room, `Alloc` keeps its promise, and a further `Alloc` does so exactly if
the file is not open for writing or there is room for the object. -/
theorem allocs_hold (rev : Revision) {staticSize : Nat} (hStatic : staticSize + rev.fileHeaderSize < 2 ^ 63)
    (memory : Nat) {calls : List (Int × HeapCall)}
    (hCalls : (deviceCalls turns).Along Within calls ((create rev staticSize).served memory)) :
    let s := ((deviceCalls turns).run calls ((create rev staticSize).served memory)).2
    (deviceCalls turns).Along CallHolds calls ((create rev staticSize).served memory) ∧
      ∀ (writable : Bool) (position : Int) (bytes : Nat) (method : ReclaimMethod), bytes < 2 ^ 64 →
        (AllocHolds position bytes method { s with writable := writable } ↔
          writable = false ∨ HasRoom bytes method s) := by
  have hStart : KeptHeap memory ((create rev staticSize).served memory) :=
    ⟨_, rfl, create_kept rev hStatic⟩
  intro s
  constructor
  · exact Machine.along_of_invariant (fun c t hKept => step_within c hKept) hStart hCalls
  have hEnd : KeptHeap memory s := Machine.run_invariant (P := Within)
    (fun c t hKept hWithin => (step_within c hKept hWithin).2) hStart hCalls
  clear_value s
  obtain ⟨d, rfl, blocks, free, hHolds, -⟩ := hEnd
  intro writable position bytes method hBytes
  cases writable with
  | false =>
    refine iff_of_true ?_ (.inl rfl)
    exact ⟨rfl, rfl, rfl⟩
  | true =>
    rw [or_iff_right Bool.true_eq_false.mp]
    constructor
    · intro hAlloc
      by_contra hRoom
      exact not_allocHolds hHolds hBytes hRoom hAlloc
    · exact allocHolds_of_hasRoom hHolds

/-- Two objects of a new file, of which the first is deleted and its block is split. -/
theorem allocs_hold_E :
    let calls := [(0, HeapCall.alloc 100 .none), (136, .alloc 8 .bestFit), (268, .delete 136),
      (104, .alloc 8 .firstFit)]
    let s := ((deviceCalls turns).run calls ((create .E 0).served 1024)).2
    (deviceCalls turns).Along CallHolds calls ((create .E 0).served 1024) ∧
      ∀ (writable : Bool) (position : Int) (bytes : Nat) (method : ReclaimMethod), bytes < 2 ^ 64 →
        (AllocHolds position bytes method { s with writable := writable } ↔
          writable = false ∨ HasRoom bytes method s) :=
  allocs_hold .E (by decide) 1024 (by decide +kernel)

/-- A byte count with which the sum of object and overhead is 31: the block ends within its header. -/
theorem alloc_wraps :
    let s := (create .E 0).served 1024
    let r := (deviceCalls turns).step (104, .alloc (2 ^ 64 - 1) .none) s
    ¬ AllocHolds 104 (2 ^ 64 - 1) .none s ∧ r.1 = .ok 136 ∧ r.2.db.fileHeader.gxdEof = 135 := by
  intro s r
  refine ⟨?_, by decide +kernel, by decide +kernel⟩
  obtain ⟨blocks, free, hHolds, -⟩ :=
    create_kept .E (show 0 + Revision.E.fileHeaderSize < 2 ^ 63 by decide)
  exact not_allocHolds hHolds (by decide) (by decide +kernel)

end Runs

end Device

end DataReel
