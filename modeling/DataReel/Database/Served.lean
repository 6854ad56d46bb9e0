import DataReel.Database.FailedCalls

/-! # A file that carries out all requests

There a call does what it does to the object alone, as long as it writes below
the end that an `off_t` sets.
-/

namespace DataReel

/-- The object with a file that is open for writing and carries out all requests. -/
abbrev Database.served (d : Database) (memory : Nat) : Device := ⟨d, true, memory, []⟩

namespace Device

open Database

variable {d : Database} {memory n bytes : Nat} {position address : Int}

/-- An address that has so many bytes up to the end. -/
def Reaches (address : Int) (bytes : Nat) : Prop := 0 ≤ address ∧ address + bytes < 2 ^ 63

theorem get_served (d : Database) (memory : Nat) :
    (get : DeviceM Device) (d.served memory) = .ok (d.served memory) (d.served memory) := rfl

theorem update_served (f : Database → Database) (d : Database) (memory : Nat) :
    update f (d.served memory) = .ok () ((f d).served memory) := rfl

theorem request_served (d : Database) (memory : Nat) :
    request (d.served memory) = .ok .done (d.served memory) := rfl

theorem read_served (address : Int) (d : Database) (memory : Nat) : read address (d.served memory) =
    match d.readAt address with
    | none => .error .readFailed (d.served memory)
    | some hdr => .ok hdr (d.served memory) := by
  rw [read, Exec.bind_ok (request_served d memory)]
  dsimp only
  rw [Exec.bind_ok (get_served d memory)]
  change (match d.readAt address with
    | none => throw .readFailed
    | some hdr => pure hdr : DeviceM BlockHeader) _ = _
  cases d.readAt address <;> rfl

theorem write_served (hReach : Reaches address bytes) (f : Database → Database) :
    write address bytes f (d.served memory) = .ok () ((f d).served memory) := by
  have hSeek : ¬ (address < 0 ∧ address ≠ gxCurrAddress) := fun h => Int.not_lt.mpr hReach.1 h.1
  have hWritable : ¬ (!(d.served memory).writable) = true := Bool.false_ne_true
  rw [write, Exec.bind_ok (get_served d memory), if_neg hWritable, if_neg hSeek]
  split
  · rfl
  · rw [Exec.bind_ok (request_served d memory)]
    dsimp only
    rw [if_pos hReach.2]
    rfl

theorem writeBlockHdr_served (hdr : BlockHeader) (hReach : Reaches address sizeOfBlockHeader) :
    writeBlockHdr hdr address (d.served memory) = .ok () ((d.writeBlockHdr hdr address).served memory) :=
  write_served hReach _

theorem writeFileStatsHdr_served (d : Database) (memory : Nat) :
    writeFileStatsHdr (d.served memory) = .ok () (d.writeFileStatsHdr.served memory) := by
  rw [writeFileStatsHdr, Exec.bind_ok (get_served d memory)]
  by_cases hStats : d.rev.hasStats = true
  · rw [if_pos hStats]
    exact write_served (by unfold Reaches; decide) _
  · rw [if_neg hStats, Database.writeFileStatsHdr, if_neg hStats]
    rfl

theorem writeFileHdr_served (d : Database) (memory : Nat) :
    writeFileHdr (d.served memory) = .ok () (d.writeFileHdr.served memory) := by
  rw [writeFileHdr, Exec.bind_ok (write_served (by unfold Reaches; decide) _)]
  exact writeFileStatsHdr_served _ _

theorem ignore_served (d : Database) (memory : Nat) :
    ignore writeFileHdr (d.served memory) = .ok () (d.writeFileHdr.served memory) := by
  rw [ignore, writeFileHdr_served]

/-! ## The free space list -/

theorem walk_served (locate : Int → Int → Int) (accept : Int → BlockHeader → Bool) (n : Nat)
    (address position : Int) (d : Database) (memory : Nat) :
    walk locate accept n address position (d.served memory) =
      match d.walk locate accept n address position with
      | none => .error .endless (d.served memory)
      | some (_, .readError) => .error .readFailed (d.served memory)
      | some r => .ok r (d.served memory) := by
  induction n generalizing address position with
  | zero => rfl
  | succ n ih =>
    rw [walk, Database.walk]
    split
    · rfl
    cases hRead : d.readAt (locate position address) with
    | none =>
      rw [Exec.bind_error (by rw [read_served, hRead])]
    | some hdr =>
      rw [Exec.bind_ok (by rw [read_served, hRead])]
      dsimp only
      split
      · rfl
      split
      · rfl
      split
      · rfl
      have hNext := ih hdr.blockNdFptr (locate position address + sizeOfBlockHeader)
      cases hWalk : d.walk locate accept n hdr.blockNdFptr (locate position address + sizeOfBlockHeader) with
      | none =>
        rw [hWalk] at hNext
        rw [Exec.bind_error hNext]
        rfl
      | some r =>
        obtain ⟨passed, ending⟩ := r
        rw [hWalk] at hNext
        cases ending with
        | readError =>
          rw [Exec.bind_error hNext]
          rfl
        | none | badBlock | badLink | found _ _ =>
          rw [Exec.bind_ok hNext]
          rfl

theorem relink_served {prev : Option (Int × BlockHeader)}
    (hPrev : ∀ p, prev = some p → Reaches p.1 sizeOfBlockHeader) (address : Int) :
    relink prev address (d.served memory) = .ok () ((d.relink prev address).served memory) := by
  cases prev with
  | none =>
    rw [relink, Exec.bind_ok (update_served _ d memory)]
    exact writeFileHdr_served _ _
  | some p =>
    rw [relink, Exec.bind_ok (writeBlockHdr_served _ (hPrev p rfl))]
    exact writeFileStatsHdr_served _ _

theorem exact_served {prev : Option (Int × BlockHeader)} {hdr : BlockHeader}
    (hPrev : ∀ p, prev = some p → Reaches p.1 sizeOfBlockHeader) :
    reclaimExact hdr prev (d.served memory) = .ok () ((d.reclaimExact hdr prev).served memory) := by
  rw [reclaimExact, Exec.bind_ok (update_served _ d memory)]
  exact relink_served hPrev _

theorem Reaches.mono (h : Reaches address n) (hBytes : bytes ≤ n) : Reaches address bytes := by
  have hLow := h.1
  have hHigh := h.2
  unfold Reaches
  omega

theorem Reaches.fau_eq (h : Reaches address bytes) : fau (address + bytes) = address + bytes := by
  have hLow := h.1
  have hHigh := h.2
  rw [fau_eq_iff]
  omega

theorem split_served {prev : Option (Int × BlockHeader)} {hdr : BlockHeader} {unused status : Nat}
    (hPrev : ∀ p, prev = some p → Reaches p.1 sizeOfBlockHeader)
    (hReach : Reaches address (bytes + sizeOfBlockHeader)) :
    reclaimSplit bytes address hdr unused status prev (d.served memory) =
      .ok () ((d.reclaimSplit bytes address hdr unused status prev).served memory) := by
  have hRest : Reaches (address + bytes) sizeOfBlockHeader := by
    have hLow := hReach.1
    have hHigh := hReach.2
    unfold Reaches
    omega
  rw [reclaimSplit, Exec.bind_ok (update_served _ d memory), (hReach.mono (Nat.le_add_right _ _)).fau_eq,
    Exec.bind_ok (writeBlockHdr_served _ hRest)]
  exact relink_served hPrev _

section Holds

variable {blocks : List (Int × BlockHeader)} {free : List Int} {a : Int} {d' : Database}
  {method : ReclaimMethod}

theorem Reaches.of_block (h : d.Holds blocks free) {b : Int × BlockHeader} (hb : b ∈ blocks) :
    Reaches b.1 b.2.blockLength := by
  have hBounds := h.bounds hb
  have hLimit := h.limit
  rw [h.fileSize] at hBounds
  unfold Reaches
  omega

theorem Reaches.of_header (h : d.Holds blocks free) {b : Int × BlockHeader} (hb : b ∈ blocks) :
    Reaches b.1 sizeOfBlockHeader :=
  (Reaches.of_block h hb).mono (h.header_le hb).1

theorem sizeOfBlockHeader_le_overhead (d : Database) : sizeOfBlockHeader ≤ d.overhead :=
  d.rev.sizeOfBlockHeader_le.trans (Nat.le_add_right _ _)

theorem reclaimFirstFit_served (h : d.Holds blocks free) (hn : d.fileSize.toNat < n)
    (hBytes : bytes < 2 ^ 63) (position : Int) (memory : Nat) :
    ∃ a d', d.reclaimFirstFit n position bytes = some (a, d') ∧
      reclaimFirstFit n position bytes (d.served memory) = .ok a (d'.served memory) := by
  obtain ⟨r, hWalk, hPassed, hEnd⟩ := h.walk_eq (fun _ hdr => d.fits bytes hdr)
    (fun position a => seekTo_pos position) hn position
  have hServed := walk_served seekTo (fun _ hdr => d.fits bytes hdr) n d.fileHeader.gxdFsFptr position d memory
  rw [hWalk] at hServed
  have hPrev (p : Int × BlockHeader) (hp : r.1.getLast? = some p) : Reaches p.1 sizeOfBlockHeader :=
    .of_header h (hPassed p (List.mem_of_getLast? hp)).1
  obtain ⟨passed, ending⟩ := r
  rw [reclaimFirstFit, Exec.bind_ok (get_served d memory), Database.reclaimFirstFit, if_neg h.gxdFsFptr_ne,
    if_neg h.gxdFsFptr_ne, hWalk]
  rcases hEnd with ⟨hNone, -⟩ | ⟨a, hdr, post, hFound, -, hb, hAccept⟩
  · obtain rfl : ending = .none := hNone
    rw [Exec.bind_ok hServed]
    exact ⟨0, d, rfl, rfl⟩
  · obtain rfl : ending = .found a hdr := hFound
    rw [Exec.bind_ok hServed]
    refine ⟨a, _, rfl, ?_⟩
    dsimp only
    split
    · rename_i hExact
      rw [Exec.bind_ok (exact_served hPrev)]
      rfl
    · rename_i hExact
      rw [Database.fits, Bool.or_eq_true, decide_eq_true_iff, decide_eq_true_iff] at hAccept
      have hRest := hAccept.resolve_left hExact
      rw [unusedLen_eq hBytes (h.blockLength_lt hb)] at hRest
      split at hRest
      · rename_i hRoom
        dsimp only at hRoom
        have hHeader := sizeOfBlockHeader_le_overhead d
        have hReach : Reaches a (bytes + sizeOfBlockHeader) :=
          (Reaches.of_block h hb).mono (show bytes + sizeOfBlockHeader ≤ hdr.blockLength by omega)
        rw [Exec.bind_ok (split_served hPrev hReach)]
        rfl
      · exact absurd hRest (Nat.lt_irrefl 0)

theorem reclaimBestFit_served (h : d.Holds blocks free) (hn : d.fileSize.toNat < n)
    (bytes : Nat) (position : Int) (memory : Nat) :
    ∃ a d', d.reclaimBestFit n position bytes = some (a, d') ∧
      reclaimBestFit n position bytes (d.served memory) = .ok a (d'.served memory) := by
  obtain ⟨r, hWalk, hPassed, hEnd⟩ := h.walk_eq (fun _ hdr => hdr.blockLength = bytes)
    (fun position a => seekTo_pos position) hn position
  have hServed := walk_served seekTo (fun _ hdr => hdr.blockLength = bytes) n d.fileHeader.gxdFsFptr
    position d memory
  rw [hWalk] at hServed
  obtain ⟨passed, ending⟩ := r
  rw [reclaimBestFit, Exec.bind_ok (get_served d memory), Database.reclaimBestFit, if_neg h.gxdFsFptr_ne,
    if_neg h.gxdFsFptr_ne, hWalk]
  rcases hEnd with ⟨hNone, -⟩ | ⟨a, hdr, post, hFound, -, hb, hAccept⟩
  · obtain rfl : ending = .none := hNone
    rw [Exec.bind_ok hServed, Option.map_some]
    dsimp only
    rw [bestFit_eq rfl, if_pos rfl]
    exact ⟨0, d, rfl, rfl⟩
  · obtain rfl : ending = .found a hdr := hFound
    rw [Exec.bind_ok hServed]
    refine ⟨a, _, rfl, ?_⟩
    have hPrev (p : Int × BlockHeader) (hp : passed.getLast? = some p) : Reaches p.1 sizeOfBlockHeader :=
      .of_header h (hPassed p (List.mem_of_getLast? hp)).1
    dsimp only
    rw [Exec.bind_ok (exact_served hPrev)]
    rfl

theorem reclaim_served (h : d.Holds blocks free) (hn : d.fileSize.toNat < n) (hBytes : bytes < 2 ^ 63)
    (position : Int) (method : ReclaimMethod) (memory : Nat) :
    ∃ a d', d.reclaim n position bytes method = some (a, d') ∧
      reclaim n position bytes method (d.served memory) = .ok a (d'.served memory) := by
  cases method with
  | none =>
    refine ⟨0, d, ?_, ?_⟩
    · rw [Database.reclaim, ite_self]
    · rw [reclaim, Exec.bind_ok (get_served d memory), ite_self]
      rfl
  | bestFit =>
    rw [reclaim, Exec.bind_ok (get_served d memory), Database.reclaim]
    split
    · exact ⟨0, d, rfl, rfl⟩
    · obtain ⟨a, d', hReclaim, hServed⟩ := reclaimBestFit_served h hn bytes position memory
      exact ⟨a, d', hReclaim, orZero_of_ok hServed⟩
  | firstFit =>
    rw [reclaim, Exec.bind_ok (get_served d memory), Database.reclaim]
    split
    · exact ⟨0, d, rfl, rfl⟩
    · obtain ⟨a, d', hReclaim, hServed⟩ := reclaimFirstFit_served h hn hBytes position memory
      exact ⟨a, d', hReclaim, orZero_of_ok hServed⟩

end Holds

/-! ## The calls -/

theorem extend_served (hReach : Reaches d.fileHeader.gxdEof bytes) (hMemory : bytes ≤ memory) :
    extend bytes (d.served memory) = .ok d.fileHeader.gxdEof ((d.extend bytes).served memory) := by
  have hEof : d.raiseEof bytes =
      { d with fileHeader := { d.fileHeader with gxdEof := d.fileHeader.gxdEof + bytes } } := by
    rw [raiseEof, hReach.fau_eq]
  rw [extend, Exec.bind_ok (get_served d memory), Exec.bind_ok (update_served _ d memory), hEof,
    if_neg (Nat.not_lt.mpr hMemory), Exec.bind_ok (write_served hReach _)]
  rfl

theorem blockHeaderSize_eq {rev : Revision} (hLock : rev.hasRecordLock = true) :
    rev.blockHeaderSize = sizeOfBlockHeader + sizeOfRecordLockHeader := by
  cases rev with
  | zero | A | B | E => cases hLock
  | C | D => rfl

theorem mark_served (hReach : Reaches address d.blockHeaderSize) (bytes : Nat) :
    mark bytes address (d.served memory) = .ok () ((d.mark bytes address).served memory) := by
  have hEnd (e : Database) : (update (·.raiseHbFptr address) >>= fun _ => ignore writeFileHdr)
      (e.served memory) = .ok () ((e.raiseHbFptr address).writeFileHdr.served memory) := by
    rw [Exec.bind_ok (update_served _ e memory), ignore_served]
  rw [mark, Exec.bind_ok (writeBlockHdr_served _ (hReach.mono d.rev.sizeOfBlockHeader_le)),
    Exec.bind_ok (get_served _ memory), Database.mark]
  dsimp only
  split
  · rename_i hRev
    have hLock : Reaches (address + sizeOfBlockHeader) sizeOfRecordLockHeader := by
      have hLow := hReach.1
      have hHigh := hReach.2
      rw [Database.blockHeaderSize, blockHeaderSize_eq (show d.rev.hasRecordLock = true from hRev)] at hHigh
      unfold Reaches
      omega
    rw [Exec.bind_ok (write_served hLock _)]
    exact hEnd _
  · exact hEnd _

section Holds

variable {blocks : List (Int × BlockHeader)} {free : List Int} {a : Int} {d' : Database}
  {method : ReclaimMethod}

theorem Reaches.of_blockHeader (h : d.Holds blocks free) {b : Int × BlockHeader} (hb : b ∈ blocks) :
    Reaches b.1 d.blockHeaderSize :=
  (Reaches.of_block h hb).mono (h.header_le hb).2

theorem gxdEof_nonneg (h : d.Holds blocks free) : 0 ≤ d.fileHeader.gxdEof := by
  have hSize := h.fileHeaderSize_le
  rw [h.fileSize] at hSize
  omega

theorem alloc_served (h : d.Holds blocks free) (hn : d.fileSize.toNat < n)
    (hBytes : bytes + d.overhead < 2 ^ 63)
    (hFit : d.reclaim n position (bytes + d.overhead) method = some (0, d) →
      d.fileHeader.gxdEof + (bytes + d.overhead : Nat) < 2 ^ 63 ∧ bytes + d.overhead ≤ memory)
    (hAlloc : d.alloc n position bytes method = some (a, d')) :
    alloc n position bytes method (d.served memory) = .ok a (d'.served memory) := by
  have hMod : (bytes + d.overhead) % 2 ^ 64 = bytes + d.overhead := Nat.mod_eq_of_lt (by omega)
  obtain ⟨found, d₁, hReclaim, hServed⟩ := reclaim_served h hn hBytes position method memory
  rw [alloc, Exec.bind_ok (get_served d memory), if_pos rfl]
  rw [Database.alloc, hMod, hReclaim, Option.map_some] at hAlloc
  dsimp only
  rw [hMod, Exec.bind_ok hServed]
  rcases h.reclaim_eq hn position hBytes method with
    hNone | ⟨l, l', pre, post, address, hdr, prev, rfl, hLocated, hHow⟩
  · obtain ⟨rfl, rfl⟩ : found = 0 ∧ d₁ = d := Prod.mk.inj (Option.some.inj (hReclaim.symm.trans hNone))
    obtain ⟨hLimit, hMemory⟩ := hFit hNone
    have hReach : Reaches d₁.fileHeader.gxdEof (bytes + d₁.overhead) :=
      ⟨gxdEof_nonneg h, hLimit⟩
    have hHeader : Reaches d₁.fileHeader.gxdEof (d₁.extend (bytes + d₁.overhead)).blockHeaderSize :=
      hReach.mono ((Nat.le_add_right _ _).trans (Nat.le_add_left _ _))
    rw [if_pos rfl] at hAlloc ⊢
    cases hAlloc
    rw [Exec.bind_ok (extend_served hReach hMemory), Exec.bind_ok (mark_served hHeader _)]
    rfl
  · have hBlock : (address, hdr) ∈ l ++ (address, hdr) :: l' := List.mem_append_cons_self
    have hPos := (h.bounds hBlock).1
    have hReach := Reaches.of_blockHeader h hBlock
    have hFound : found = address ∧ d₁.rev = d.rev := by
      rcases hHow with ⟨-, hExact⟩ | ⟨-, hSplit⟩
      · cases hReclaim.symm.trans hExact
        exact ⟨rfl, by simp [Database.reclaimExact]⟩
      · cases hReclaim.symm.trans hSplit
        exact ⟨rfl, by simp [Database.reclaimSplit, countRest]⟩
    obtain ⟨rfl, hRev⟩ := hFound
    have hSize : d₁.blockHeaderSize = d.blockHeaderSize := congrArg Revision.blockHeaderSize hRev
    rw [if_neg hPos.ne'] at hAlloc ⊢
    cases hAlloc
    rw [Exec.bind_ok (show (pure found : DeviceM Int) (d₁.served memory) = .ok found (d₁.served memory) from rfl),
      Exec.bind_ok (mark_served (hSize ▸ hReach) _), hSize]
    rfl

/-- A call that returns 1 or 0 does so as it is from the object alone. -/
def Answers (x : DeviceM Unit) (s : Device) (memory : Nat) (r : Bool × Database) : Prop :=
  (r.1 = true ∧ x s = .ok () (r.2.served memory)) ∨ (r.1 = false ∧ ∃ e, x s = .error e (r.2.served memory))

theorem readBlockHdr_served (position address : Int) (d : Database) (memory : Nat) :
    (∃ hdr, d.readBlockHdr position address = some hdr ∧
        readBlockHdr position address (d.served memory) = .ok hdr (d.served memory)) ∨
      (d.readBlockHdr position address = none ∧
        ∃ e, readBlockHdr position address (d.served memory) = .error e (d.served memory)) := by
  have hServed := read_served (readPosition position address) d memory
  cases hRead : d.readAt (readPosition position address) with
  | none =>
    rw [hRead] at hServed
    refine .inr ⟨?_, _, Exec.bind_error hServed⟩
    rw [Database.readBlockHdr, hRead, Option.filter_none]
  | some hdr =>
    rw [hRead] at hServed
    rw [Database.readBlockHdr, hRead, Option.filter_some, readBlockHdr, Exec.bind_ok hServed]
    by_cases hTest : hdr.test = true
    · rw [if_pos hTest, if_pos hTest]
      exact .inl ⟨hdr, rfl, rfl⟩
    · rw [if_neg hTest, if_neg hTest]
      exact .inr ⟨rfl, _, rfl⟩

theorem delete_served (h : d.Holds blocks free) (memory : Nat) (removeObject : Bool)
    (hBlock : ∀ hdr, d.readBlockHdr position (a - d.blockHeaderSize) = some hdr →
      ∃ hdr', (a - d.blockHeaderSize, hdr') ∈ blocks) :
    Answers (delete position a removeObject) (d.served memory) memory (d.delete position a removeObject) := by
  rw [Answers, delete, Exec.bind_ok (get_served d memory), Database.delete]
  dsimp only
  rcases readBlockHdr_served position (a - d.blockHeaderSize) d memory with ⟨hdr, hRead, hServed⟩ | ⟨hRead, e, hServed⟩
  · obtain ⟨hdr', hb⟩ := hBlock hdr hRead
    have hPos := (h.bounds hb).1
    have hReach : Reaches (readPosition (position + sizeOfBlockHeader) (a - d.blockHeaderSize)) sizeOfBlockHeader := by
      rw [readPosition_pos _ hPos]
      exact Reaches.of_header h hb
    rw [hRead, Exec.bind_ok hServed]
    dsimp only
    split
    · exact .inr ⟨rfl, _, rfl⟩
    rw [Exec.bind_ok (update_served _ d memory), Exec.bind_ok (writeBlockHdr_served _ hReach)]
    split
    · exact .inl ⟨rfl, rfl⟩
    · rw [Exec.bind_ok (update_served _ _ memory), ignore_served]
      exact .inl ⟨rfl, rfl⟩
  · rw [hRead, Exec.bind_error hServed]
    exact .inr ⟨rfl, e, rfl⟩

theorem unlink_served {prev : Option (Int × BlockHeader)} {hdr : BlockHeader}
    (hPrev : ∀ p, prev = some p → Reaches p.1 sizeOfBlockHeader) :
    unlink hdr prev (d.served memory) = .ok () ((d.unlink hdr prev).served memory) := by
  cases prev with
  | none =>
    rw [unlink, Exec.bind_ok (update_served _ d memory), Exec.bind_ok (update_served _ _ memory),
      writeFileHdr_served]
    rfl
  | some p =>
    rw [unlink, Exec.bind_ok (update_served _ d memory)]
    exact writeBlockHdr_served _ (hPrev p rfl)

theorem unDelete_served (h : d.Holds blocks free) (hn : d.fileSize.toNat < n) (memory : Nat)
    (position a : Int) :
    ∃ r, d.unDelete n position a = some r ∧ Answers (unDelete n position a) (d.served memory) memory r := by
  simp only [Answers, Database.unDelete]
  rw [unDelete, Exec.bind_ok (get_served d memory)]
  rcases readBlockHdr_served position (a - d.blockHeaderSize) d memory with ⟨hdr, hRead, hServed⟩ | ⟨hRead, e, hServed⟩
  · rw [hRead, Exec.bind_ok hServed]
    dsimp only
    split
    · exact ⟨_, rfl, .inr ⟨rfl, _, rfl⟩⟩
    obtain ⟨r, hWalk, hPassed, hEnd⟩ := h.walk_eq (fun address _ => address = a - d.blockHeaderSize)
      (fun position a => readPosition_pos position) hn
      (readPosition position (a - d.blockHeaderSize) + sizeOfBlockHeader)
    have hWalked := walk_served readPosition (fun address _ => address = a - d.blockHeaderSize) n
      d.fileHeader.gxdFsFptr (readPosition position (a - d.blockHeaderSize) + sizeOfBlockHeader) d memory
    rw [hWalk] at hWalked
    obtain ⟨passed, ending⟩ := r
    rw [hWalk]
    refine ⟨_, rfl, ?_⟩
    rcases hEnd with ⟨hNone, -⟩ | ⟨address, found, post, hFound, -, hb, -⟩
    · obtain rfl : ending = .none := hNone
      rw [Exec.bind_ok hWalked]
      exact .inr ⟨rfl, _, rfl⟩
    · obtain rfl : ending = .found address found := hFound
      have hPrev (p : Int × BlockHeader) (hp : passed.getLast? = some p) : Reaches p.1 sizeOfBlockHeader :=
        .of_header h (hPassed p (List.mem_of_getLast? hp)).1
      rw [Exec.bind_ok hWalked]
      dsimp only
      rw [Exec.bind_ok (unlink_served hPrev), writeBlockHdr_served _ (Reaches.of_header h hb)]
      exact .inl ⟨rfl, rfl⟩
  · rw [hRead, Exec.bind_error hServed]
    exact ⟨_, rfl, .inr ⟨rfl, e, rfl⟩⟩

end Holds

end Device

end DataReel
