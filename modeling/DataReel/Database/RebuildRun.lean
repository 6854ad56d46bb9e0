import DataReel.Database.Objects
import DataReel.Database.ScanEnds

/-! # Rebuilding an undamaged file

After any history of calls and writes, the search from the start of the file
comes to the first block if nothing before it looks like a block header, and
the loop goes over the blocks and copies the objects in use.
-/

namespace DataReel

open Database

/-- Calls find a block at the address of their object if they find one, and writes stay in a block in
use, behind its header, or in the static area. -/
def FileCall.Proper (c : Int × FileCall) (d : Database) : Prop :=
  match c.2 with
  | .heap call => HeapCall.Allowed (c.1, call) d
  | .write address bytes =>
    (∃ b ∈ d.blocks, b.2.status = gxNormalBlock ∧ b.1 + sizeOfBlockHeader ≤ address ∧
      address + bytes.length ≤ b.1 + b.2.blockLength) ∨
    (d.rev.fileHeaderSize : Int) ≤ address ∧ address + bytes.length ≤ d.fileHeader.gxdHsFptr

instance (d : Database) : ∀ c, Decidable (FileCall.Proper c d)
  | (position, .heap call) => inferInstanceAs (Decidable (HeapCall.Allowed (position, call) d))
  | (_, .write address bytes) =>
    inferInstanceAs (Decidable ((∃ b ∈ d.blocks, b.2.status = gxNormalBlock ∧
      b.1 + sizeOfBlockHeader ≤ address ∧ address + bytes.length ≤ b.1 + b.2.blockLength) ∨
      (d.rev.fileHeaderSize : Int) ≤ address ∧ address + bytes.length ≤ d.fileHeader.gxdHsFptr))

namespace Database

variable {d d' : Database} {blocks pre post : List (Int × BlockHeader)} {free : List Int}
  {b : Int × BlockHeader}

/-! ## Undamaged files -/

/-- A heap whose header on disk agrees with the one in memory, blocks of any size included. -/
structure Intact (d : Database) (blocks : List (Int × BlockHeader)) (free : List Int) : Prop where
  holds : d.Holds blocks free
  sig : d.fileHeader.gxdSig = (gxSignature.1, gxSignature.2 + d.rev.letter * 256)
  diskFsFptr : d.diskHeader.gxdFsFptr = d.fileHeader.gxdFsFptr
  diskEof : d.diskHeader.gxdEof = d.fileHeader.gxdEof
  diskHsFptr : d.diskHeader.gxdHsFptr = d.fileHeader.gxdHsFptr
  diskSig : d.diskHeader.gxdSig = d.fileHeader.gxdSig
  /-- There is no highest block before there is a block. -/
  highest : blocks = [] → d.fileHeader.gxdHbFptr = 0 ∧ d.diskHeader.gxdHbFptr = 0

namespace Intact

theorem words (h : d.Intact blocks free) :
    d.fileHeader.gxdSig.1 < 2 ^ 64 ∧ d.fileHeader.gxdSig.2 < 2 ^ 64 := by
  rw [h.sig]
  change gxSignature.1 < 2 ^ 64 ∧ gxSignature.2 + d.rev.letter * 256 < 2 ^ 64
  cases d.rev <;> decide

theorem heap (h : d.Intact blocks free) {c : Int × HeapCall} (hAllowed : HeapCall.Allowed c d) :
    ∃ blocks' free', (heapCalls.step c d).2.Intact blocks' free' := by
  obtain ⟨a, blocks', free', hChanges, hEffect⟩ := HeapCall.step_effect c h.holds hAllowed
  obtain ⟨hFs, hEof, hStart, hSig⟩ := disk_header hChanges h.words h.diskFsFptr h.diskEof
    h.diskHsFptr h.diskSig
  refine ⟨blocks', free', hChanges.holds, ?_, hFs, hEof, hStart, hSig, fun hNil => ?_⟩
  · rw [hChanges.sig, hChanges.rev]
    exact h.sig
  · have hNone : blocks = [] := by
      rw [List.eq_nil_iff_forall_not_mem]
      intro b hb
      obtain ⟨hdr, hb'⟩ := hChanges.starts b hb
      rw [hNil] at hb'
      exact List.not_mem_nil hb'
    obtain ⟨hHighest, hDisk⟩ := h.highest hNone
    have hCall : ∀ bytes method, c.2 ≠ .alloc bytes method := by
      intro bytes method hCall
      rw [hCall] at hEffect
      generalize (heapCalls.step c d).1 = reply at hEffect
      cases hEffect with
      | refused target => cases target
      | allocated new _ =>
        rw [hNil] at new
        exact List.not_mem_nil new
    obtain ⟨x, hHeader⟩ := step_fileHeader (d := d) hCall
    have hZero : (heapCalls.step c d).2.fileHeader.gxdHbFptr = 0 := by rw [hHeader, ← hHighest]
    refine ⟨hZero, ?_⟩
    have hWords := FileHeader.words_lt_iff.mpr (hChanges.sig ▸ h.words)
    rcases hChanges.written hWords with hNew | ⟨hOld, -⟩
    · rw [hNew]
      change intOfWord (wordOfInt (heapCalls.step c d).2.fileHeader.gxdHbFptr) = 0
      rw [hZero]
      rfl
    · rw [hOld, hDisk]

theorem step (h : d.Intact blocks free) {c : Int × FileCall} (hProper : FileCall.Proper c d) :
    ∃ blocks' free', (fileCalls.step c d).2.Intact blocks' free' := by
  obtain ⟨position, call⟩ := c
  cases call with
  | heap call => exact h.heap hProper
  | write address bytes =>
    have hPlace : (∃ b ∈ blocks, b.1 + sizeOfBlockHeader ≤ address ∧
        address + bytes.length ≤ b.1 + b.2.blockLength) ∨
        (d.rev.fileHeaderSize : Int) ≤ address ∧ address + bytes.length ≤ d.fileHeader.gxdHsFptr := by
      refine hProper.imp_left fun ⟨b, hb, _, hIn⟩ => ⟨b, ?_, hIn⟩
      rwa [h.holds.blocks_eq] at hb
    obtain ⟨hHolds, hDisk⟩ := h.holds.writeBytes hPlace
    refine ⟨blocks, free, hHolds, h.sig, ?_, ?_, ?_, ?_, fun hNil => ⟨(h.highest hNil).1, ?_⟩⟩
    · exact (congrArg FileHeader.gxdFsFptr hDisk).trans h.diskFsFptr
    · exact (congrArg FileHeader.gxdEof hDisk).trans h.diskEof
    · exact (congrArg FileHeader.gxdHsFptr hDisk).trans h.diskHsFptr
    · exact (congrArg FileHeader.gxdSig hDisk).trans h.diskSig
    · exact (congrArg FileHeader.gxdHbFptr hDisk).trans (h.highest hNil).2

end Intact

theorem create_holds (rev : Revision) {staticSize : Nat}
    (hStatic : staticSize + rev.fileHeaderSize < 2 ^ 63) : (create rev staticSize).Holds [] [] := by
  obtain ⟨blocks, free, hHolds, -⟩ := create_kept rev hStatic
  have hHeader := create_fileHeader rev staticSize
  obtain rfl := hHolds.nil_of_start (by rw [hHeader]; rfl)
  obtain rfl : free = [] := by
    rw [List.eq_nil_iff_forall_not_mem]
    intro a ha
    obtain ⟨hdr, hb, -⟩ := (hHolds.free_iff a).mp ha
    exact List.not_mem_nil hb
  exact hHolds

theorem create_intact (rev : Revision) {staticSize : Nat}
    (hStatic : staticSize + rev.fileHeaderSize < 2 ^ 63) : (create rev staticSize).Intact [] [] := by
  have hHeader := create_fileHeader rev staticSize
  have hDisk := create_diskHeader rev hStatic
  refine ⟨create_holds rev hStatic, ?_, ?_, ?_, ?_, ?_, fun _ => ⟨?_, ?_⟩⟩
  · rw [hHeader, create_rev]
    rfl
  · rw [hDisk, hHeader]
  · rw [hDisk, hHeader]
  · rw [hDisk, hHeader]
  · rw [hDisk, hHeader]
  · rw [hHeader]
    rfl
  · rw [hDisk]
    rfl

theorem run_intact (rev : Revision) {staticSize : Nat}
    (hStatic : staticSize + rev.fileHeaderSize < 2 ^ 63) {calls : List (Int × FileCall)}
    (hCalls : fileCalls.Along FileCall.Proper calls (create rev staticSize)) :
    ∃ blocks free, (fileCalls.run calls (create rev staticSize)).2.Intact blocks free := by
  refine Machine.run_invariant (M := fileCalls) (P := FileCall.Proper)
    (I := fun d => ∃ blocks free, d.Intact blocks free) ?_ ⟨[], [], create_intact rev hStatic⟩ hCalls
  rintro c d ⟨blocks, free, h⟩ hProper
  exact h.step hProper

/-! ## The search -/

theorem Intact.headerErrors_eq (h : d.Intact blocks free) : d.headerErrors = false := by
  have hHeader : FileHeader.ofWords (d.file.readWords 0 7) = d.diskHeader := rfl
  have hSize := h.holds.fileHeaderSize_le
  have hFirst := d.rev.sizeOfFileHeader_le
  have hStart := h.holds.start
  have hTiles := h.holds.tiles.le
  have hEof := h.holds.fileSize
  simp only [headerErrors]
  rw [hHeader, h.diskHsFptr, h.diskSig, h.sig, if_neg (by omega), if_neg ?_, if_neg (by omega)]
  · cases blocks with
    | nil => rw [if_pos (h.highest rfl).2]
    | cons b l =>
      have hb : b ∈ b :: l := List.mem_cons_self
      have hBounds := h.holds.bounds hb
      have hHeader := (h.holds.header_le hb).1
      rw [← show b.1 = d.fileHeader.gxdHsFptr from h.holds.tiles.1, h.holds.validHeader_eq hb]
      split
      · rfl
      · rw [if_neg (by omega)]
        rfl
  · rw [not_not]
    change gxSignature.1 = gxSignature.1 ∧ (gxSignature.2 + d.rev.letter * 256) % 256 = gxSignature.2
    rw [Nat.add_mul_mod_self_right]
    exact ⟨rfl, by decide⟩

/-- No bytes before the heap look like the header of a block. -/
def NoneBelow (d : Database) : Prop := ∀ x < d.fileHeader.gxdHsFptr.toNat, d.validHeader x = none

instance (d : Database) : Decidable d.NoneBelow := inferInstanceAs (Decidable (∀ x < _, _))

theorem Intact.blockSearchFrom_eq (h : d.Intact blocks free) (hNone : d.NoneBelow) {n k : Nat}
    (hk : (k : Int) ≤ d.fileHeader.gxdHsFptr) (hn : (d.fileSize - k).toNat ≤ n) :
    d.blockSearchFrom n k =
      if d.fileHeader.gxdHsFptr + sizeOfBlockHeader < d.fileSize then d.fileHeader.gxdHsFptr else 0 := by
  induction n generalizing k with
  | zero =>
    rw [blockSearchFrom, if_neg (by omega)]
  | succ n ih =>
    rw [blockSearchFrom]
    split
    · rw [if_neg (by omega)]
    · rename_i hEnd
      have hRead : d.readAt k = some (BlockHeader.ofWords (d.file.readWords k 4)) :=
        if_pos ⟨by omega, by omega⟩
      rw [hRead]
      dsimp only
      by_cases hBelow : (k : Int) < d.fileHeader.gxdHsFptr
      · have hNot := hNone k (by omega)
        rw [validHeader, hRead, Option.filter_some] at hNot
        split at hNot
        · cases hNot
        · rw [if_neg ‹_›]
          have hNext : ((k + 1 : Nat) : Int) ≤ d.fileHeader.gxdHsFptr := by omega
          have hTurns : (d.fileSize - ((k + 1 : Nat) : Int)).toNat ≤ n := by omega
          exact ih hNext hTurns
      · have hAt : (k : Int) = d.fileHeader.gxdHsFptr := by omega
        have hEof := h.holds.fileSize
        have hTiles := h.holds.tiles
        cases blocks with
        | nil =>
          have hSame : d.fileHeader.gxdHsFptr = d.fileHeader.gxdEof := hTiles
          omega
        | cons b l =>
          have hb : b ∈ b :: l := List.mem_cons_self
          have hStored := h.holds.stored b hb
          rw [hTiles.1, ← hAt, hRead] at hStored
          rw [Option.some.inj hStored, if_pos (h.holds.sound b hb).test, if_pos (by omega), hAt]

theorem Intact.blockSearch_eq (h : d.Intact blocks free) (hNone : d.NoneBelow) :
    d.blockSearch 0 =
      if d.fileHeader.gxdHsFptr + sizeOfBlockHeader < d.fileSize then d.fileHeader.gxdHsFptr else 0 := by
  have hStart := h.holds.start
  have hZero : ((0 : Nat) : Int) ≤ d.fileHeader.gxdHsFptr := by omega
  exact h.blockSearchFrom_eq hNone hZero (by omega)

/-! ## The loop -/

/-- The objects in use of some blocks. -/
def objectsIn (d : Database) (l : List (Int × BlockHeader)) : List (List UInt8) :=
  (l.filter fun b => b.2.status = gxNormalBlock).map d.payload

/-- The blocks that the loop comes to: one without room for more than its header at the end of the file
is not looked at. -/
def reached (d : Database) (l : List (Int × BlockHeader)) : List (Int × BlockHeader) :=
  l.filter fun b => b.1 + d.blockHeaderSize < d.fileSize

/-- The new file has the objects of some blocks and no other. -/
structure Copying (d e : Database) (done : List (Int × BlockHeader)) (s : Rebuilding) : Prop where
  carries : ∃ blocks, s.newFile.Carries blocks (d.objectsIn done)
  count : s.count = (d.objectsIn done).length
  badgx : s.badgx = 0
  rev : s.newFile.rev = e.rev
  start : s.newFile.fileHeader.gxdHsFptr = e.fileHeader.gxdHsFptr
  eof : s.newFile.fileHeader.gxdEof =
    e.fileHeader.gxdEof + (((d.objectsIn done).map fun p => p.length + e.overhead).sum : Nat)
  kept : ∀ x, (e.rev.fileHeaderSize : Int) ≤ x → x < e.fileHeader.gxdEof → s.newFile.file x = e.file x

namespace Rebuilding

variable {s : Rebuilding} {memory : Nat}

theorem turn_eq (h : d.Holds blocks free) (hb : b ∈ blocks) (hAddr : s.addr = b.1)
    (hMemory : d.fileSize + d.blockHeaderSize ≤ memory) (hLimit : memory < 2 ^ 63) :
    s.turn d memory =
      if b.1 + d.blockHeaderSize < d.fileSize then
        .inr (if b.2.status = gxNormalBlock then
          { s with addr := b.1 + b.2.blockLength }.writeObject (d.payload b)
          else { s with addr := b.1 + b.2.blockLength })
      else .inl s := by
  have hBounds := h.bounds hb
  have hLength := h.blockLength_lt hb
  have hSound := h.sound b hb
  have hOverhead := d.overhead_eq
  have hSize : 0 < d.blockHeaderSize := d.rev.blockHeaderSize_pos
  have hLe : sizeOfBlockHeader ≤ d.blockHeaderSize := d.rev.sizeOfBlockHeader_le
  have hOver := hSound.overhead
  have hInt : intOfWord b.2.blockLength = b.2.blockLength := if_pos hLength
  have hObject : intOfWord (wordOfInt (b.2.blockLength - d.overhead)) =
      (b.2.blockLength - d.overhead : Nat) := by
    rw [intOfWord_wordOfInt (by omega) (by omega)]
    omega
  have hNext : fauSum b.1 b.2.blockLength = b.1 + b.2.blockLength := fauSum_eq (by omega) (by omega)
  rw [turn, hAddr, fauSum_eq (by omega) (by omega)]
  by_cases hReached : b.1 + d.blockHeaderSize < d.fileSize
  · rw [if_neg (by omega), if_pos hReached, h.stored b hb]
    dsimp only
    rw [hSound.test, hInt, hNext, hObject, if_neg (by simp), if_neg (by omega)]
    by_cases hUse : b.2.blockStatus = gxNormalBlock
    · have hLock : ¬ (d.rev.hasRecordLock = true ∧ d.fileSize ≤ b.1 + d.blockHeaderSize) := by omega
      rw [if_neg (not_not.mpr hUse), if_neg (by omega), if_neg hLock, if_neg (by omega),
        if_neg (by omega), hSound.status_eq, if_pos hUse, Int.toNat_natCast]
      rfl
    · rw [if_pos hUse, hSound.status_eq, if_neg hUse]
  · rw [if_pos (by omega), if_neg hReached]

theorem writeObject_eq (s : Rebuilding) {object : List UInt8} {objectAddress : Int} {e : Database}
    (hAlloc : s.newFile.alloc 1 0 object.length .firstFit = some (objectAddress, e)) :
    s.writeObject object =
      { s with newFile := e.fill objectAddress object, count := s.count + 1 } := by
  rw [writeObject, hAlloc]
  rfl

end Rebuilding

theorem objectsIn_append (l l' : List (Int × BlockHeader)) :
    d.objectsIn (l ++ l') = d.objectsIn l ++ d.objectsIn l' := by
  rw [objectsIn, List.filter_append, List.map_append]
  rfl

theorem objectsIn_singleton (b : Int × BlockHeader) :
    d.objectsIn [b] = if b.2.status = gxNormalBlock then [d.payload b] else [] := by
  rw [objectsIn, List.filter_singleton]
  by_cases hUse : b.2.status = gxNormalBlock
  · simp [hUse]
  · simp [hUse]

namespace Copying

variable {e : Database} {s : Rebuilding} {done : List (Int × BlockHeader)} {memory : Nat}

theorem copy (h : Copying d e done s) (hUse : b.2.status = gxNormalBlock)
    (hFit : e.fileHeader.gxdEof +
      (((d.objectsIn (done ++ [b])).map fun p => p.length + e.overhead).sum : Nat) < 2 ^ 63) :
    Copying d e (done ++ [b]) (s.writeObject (d.payload b)) := by
  obtain ⟨blocks, hCarries⟩ := h.carries
  have hObjects : d.objectsIn (done ++ [b]) = d.objectsIn done ++ [d.payload b] := by
    rw [objectsIn_append, objectsIn_singleton, if_pos hUse]
  have hOverhead : s.newFile.overhead = e.overhead := by rw [overhead, h.rev, overhead]
  rw [hObjects, List.map_append, List.sum_append, List.map_singleton, List.sum_singleton] at hFit
  have hEof := h.eof
  have hRoom : s.newFile.fileHeader.gxdEof + ((d.payload b).length + s.newFile.overhead) < 2 ^ 63 := by
    rw [hEof, hOverhead]
    omega
  obtain ⟨e', hAlloc, hFilled, hGrows⟩ := hCarries.fill hRoom
  rw [Rebuilding.writeObject_eq s hAlloc]
  have hOld : e.fileHeader.gxdEof ≤ s.newFile.fileHeader.gxdEof := by omega
  refine ⟨⟨_, hObjects ▸ hFilled⟩, ?_, h.badgx, hGrows.rev.trans h.rev, hGrows.start.trans h.start, ?_,
    fun x hx hx' => ?_⟩
  · rw [hObjects, List.length_append, List.length_singleton, ← h.count]
  · rw [hObjects, List.map_append, List.sum_append, List.map_singleton, List.sum_singleton]
    refine hGrows.eof.trans ?_
    rw [hEof, hOverhead]
    omega
  · rw [← h.kept x hx hx']
    exact hGrows.kept x (by rwa [h.rev]) (by omega)

theorem pass (h : Copying d e done s) (hUse : b.2.status ≠ gxNormalBlock) :
    Copying d e (done ++ [b]) s := by
  have hObjects : d.objectsIn (done ++ [b]) = d.objectsIn done := by
    rw [objectsIn_append, objectsIn_singleton, if_neg hUse, List.append_nil]
  refine ⟨?_, ?_, h.badgx, h.rev, h.start, ?_, h.kept⟩
  · rw [hObjects]
    exact h.carries
  · rw [hObjects]
    exact h.count
  · rw [hObjects]
    exact h.eof

theorem at_address (h : Copying d e done s) (addr : Int) : Copying d e done { s with addr } :=
  ⟨h.carries, h.count, h.badgx, h.rev, h.start, h.eof, h.kept⟩

theorem reached_eq_nil (h : d.Holds (pre ++ b :: post) free)
    (hEnd : ¬ b.1 + d.blockHeaderSize < d.fileSize) : d.reached (b :: post) = [] := by
  rw [reached, List.filter_eq_nil_iff]
  intro c hc
  rw [decide_eq_true_eq]
  cases hc with
  | head => exact hEnd
  | tail _ hc =>
    have hc' := (h.tiles.after).bounds hc
    have hLength := (h.sound b (by simp)).overhead
    have hOverhead := d.overhead_eq
    omega

theorem loop (h : d.Holds (pre ++ post) free) (hMemory : d.fileSize + d.blockHeaderSize ≤ memory)
    (hLimit : memory < 2 ^ 63) (hPre : d.reached pre = pre)
    (hAddr : Tiles BlockHeader.blockLength s.addr post d.fileHeader.gxdEof)
    (hCopying : Copying d e pre s)
    (hFit : e.fileHeader.gxdEof +
      (((d.objectsIn (pre ++ post)).map fun p => p.length + e.overhead).sum : Nat) < 2 ^ 63) :
    ∃ t, (∀ n, post.length < n → Loop.result (fun s => Rebuilding.turn d s memory) n s = some t) ∧
      Copying d e (d.reached (pre ++ post)) t ∧ t.rebuildErrors = s.rebuildErrors := by
  induction post generalizing pre s with
  | nil =>
    have hEnd : s.addr = d.fileSize := hAddr.trans h.fileSize.symm
    have hSize := h.fileHeaderSize_le
    have hStop : s.turn d memory = .inl s := by
      rw [Rebuilding.turn, fauSum_eq (by omega) (by omega), if_pos (by omega)]
    refine ⟨s, fun n hn => ?_, ?_, rfl⟩
    · obtain ⟨n, rfl⟩ := Nat.exists_eq_succ_of_ne_zero (Nat.ne_of_gt hn)
      rw [Loop.result, hStop]
    · rw [List.append_nil, hPre]
      exact hCopying
  | cons b post ih =>
    have hb : b ∈ pre ++ b :: post := List.mem_append_right _ List.mem_cons_self
    have hTurn := Rebuilding.turn_eq h hb hAddr.1.symm hMemory hLimit
    by_cases hReached : b.1 + d.blockHeaderSize < d.fileSize
    · rw [if_pos hReached] at hTurn
      have hAll : pre ++ b :: post = (pre ++ [b]) ++ post := by rw [List.append_assoc]; rfl
      rw [hAll] at h hFit ⊢
      have hPrefix : e.fileHeader.gxdEof +
          (((d.objectsIn (pre ++ [b])).map fun p => p.length + e.overhead).sum : Nat) < 2 ^ 63 := by
        rw [objectsIn_append, List.map_append, List.sum_append] at hFit
        omega
      have hPassed : d.reached (pre ++ [b]) = pre ++ [b] := by
        rw [reached, List.filter_append, ← reached, hPre]
        simp [hReached]
      have hNext : ∃ u, s.turn d memory = .inr u ∧ Copying d e (pre ++ [b]) u ∧
          u.addr = b.1 + b.2.blockLength ∧ u.rebuildErrors = s.rebuildErrors := by
        refine ⟨_, hTurn, ?_⟩
        by_cases hUse : b.2.status = gxNormalBlock
        · rw [if_pos hUse]
          refine ⟨(hCopying.at_address _).copy hUse hPrefix, Rebuilding.writeObject_addr _, ?_⟩
          rw [Rebuilding.writeObject]
          split <;> rfl
        · rw [if_neg hUse]
          exact ⟨(hCopying.at_address _).pass hUse, rfl, rfl⟩
      obtain ⟨u, hTurn, hCopied, hBehind, hErrors⟩ := hNext
      obtain ⟨t, hLoop, hEnd, hSame⟩ := ih h hPassed (by rw [hBehind, hAddr.1]; exact hAddr.2) hCopied
        hFit
      refine ⟨t, fun n hn => ?_, hEnd, hSame.trans hErrors⟩
      obtain ⟨n, rfl⟩ := Nat.exists_eq_succ_of_ne_zero (Nat.ne_of_gt (Nat.zero_lt_of_lt hn))
      rw [Loop.result, hTurn]
      exact hLoop n (Nat.lt_of_succ_lt_succ hn)
    · rw [if_neg hReached] at hTurn
      refine ⟨s, fun n hn => ?_, ?_, rfl⟩
      · obtain ⟨n, rfl⟩ := Nat.exists_eq_succ_of_ne_zero (Nat.ne_of_gt (Nat.zero_lt_of_lt hn))
        rw [Loop.result, hTurn]
      · rw [reached, List.filter_append, ← reached, ← reached, hPre, reached_eq_nil h hReached,
          List.append_nil]
        exact hCopying

end Copying

/-! ## The static area -/

/-- The bytes between the file headers and the heap. -/
def staticArea (d : Database) : List UInt8 :=
  d.file.get d.rev.fileHeaderSize (d.fileHeader.gxdHsFptr - d.rev.fileHeaderSize).toNat

theorem staticArea_length : d.staticArea.length =
    (d.fileHeader.gxdHsFptr - d.rev.fileHeaderSize).toNat := Bytes.get_length

theorem staticArea_congr (hRev : d'.rev = d.rev)
    (hStart : d'.fileHeader.gxdHsFptr = d.fileHeader.gxdHsFptr)
    (hFile : ∀ x, (d.rev.fileHeaderSize : Int) ≤ x → x < d.fileHeader.gxdHsFptr →
      d'.file x = d.file x) : d'.staticArea = d.staticArea := by
  rw [staticArea, staticArea, hRev, hStart]
  exact Bytes.get_congr fun x hx hx' => hFile x hx (by omega)

theorem writeFileHdr_file {x : Int} (hx : (d.rev.fileHeaderSize : Int) ≤ x) :
    d.writeFileHdr.file x = d.file x := by
  have hSize := d.rev.sizeOfFileHeader_le
  have hHeader : (d.writeWords 0 d.fileHeader.words).file x = d.file x := by
    refine Bytes.writeWords_outside (.inr ?_)
    change (0 : Int) + 8 * (7 : Nat) ≤ x
    rw [sizeOfFileHeader] at hSize
    omega
  rw [writeFileHdr, writeFileStatsHdr]
  split
  · rename_i hStats
    refine (Bytes.writeWords_outside (.inr ?_)).trans hHeader
    change fileStatsAddress + 8 * (3 : Nat) ≤ x
    have hPlace : fileStatsAddress + 8 * (3 : Nat) = (d.rev.fileHeaderSize : Int) := by
      change d.rev.hasStats = true at hStats
      cases hRev : d.rev <;> rw [hRev] at hStats <;> first | rfl | cases hStats
    omega
  · exact hHeader

theorem create_staticArea (rev : Revision) (staticSize : Nat) :
    (create rev staticSize).staticArea = List.replicate staticSize 0 := by
  have hLock (x : Int) (hx : (rev.fileHeaderSize : Int) ≤ x) (e : Database) (hFile : e.file x = 0) :
      (if rev.hasFileLock then e.writeWords sizeOfFileHeader [0, 0, 0] else e).file x = 0 := by
    have hSize : rev.hasFileLock = true → sizeOfFileHeader + 24 ≤ rev.fileHeaderSize := by
      cases rev <;> decide
    split
    · have hBehind := hSize ‹_›
      refine (Bytes.writeWords_outside (.inr ?_)).trans hFile
      change (sizeOfFileHeader : Int) + 8 * (3 : Nat) ≤ x
      omega
    · exact hFile
  have hHeap (x a : Int) (e : Database) (hFile : e.file x = 0) :
      (if (rev.fileHeaderSize : Int) < a then e.writeZeros (a - 1) 1 else e).file x = 0 := by
    split
    · change Bytes.write e.file (a - 1) 1 0 x = 0
      rw [Bytes.write]
      split
      · rw [Nat.zero_div]
        rfl
      · exact hFile
    · exact hFile
  have hZero (x : Int) (hx : (rev.fileHeaderSize : Int) ≤ x) : (create rev staticSize).file x = 0 :=
    hHeap x _ _ (hLock x hx _ ((writeFileHdr_file hx).trans rfl))
  have hLength : ((create rev staticSize).fileHeader.gxdHsFptr -
      (create rev staticSize).rev.fileHeaderSize).toNat = staticSize := by
    rw [create_fileHeader, create_rev]
    dsimp only [newHeader]
    omega
  rw [staticArea, hLength, create_rev, List.eq_replicate_iff]
  refine ⟨Bytes.get_length, fun b hb => ?_⟩
  obtain ⟨i, -, rfl⟩ := List.mem_map.mp hb
  exact hZero _ (by omega)

/-! ## What `Rebuild` leaves -/

/-- The new file has the objects in use of another, their checksums and, if it was to be copied, the
static area. -/
structure Restores (d : Database) (rev : Revision) (copyStaticData : Bool) (r : Rebuilt) : Prop where
  good : r.good = true
  rev : r.newFile.rev = rev
  heap : ∃ blocks, r.newFile.Holds blocks []
  payloads : r.newFile.payloads = d.payloads
  inUse : ∀ b ∈ r.newFile.blocks, b.2.status = gxNormalBlock
  checksums : r.newFile.rev.checksumSize ≠ 0 → ∀ b ∈ r.newFile.blocks,
    r.newFile.checksum b = [calcCRC32 (r.newFile.payload b)]
  staticArea : copyStaticData = true → r.newFile.staticArea = d.staticArea
  numObjects : r.numObjects = d.payloads.length

/-- The size of the static area that `Rebuild` gives the new file. -/
def newStaticSize (d : Database) (staticArea : Nat) : Nat :=
  if staticArea = 0 then d.staticArea.length else staticArea

/-- The size of the new file. -/
def rebuiltSize (d : Database) (rev : Revision) (staticArea : Nat) : Nat :=
  d.newStaticSize staticArea + rev.fileHeaderSize +
    (d.payloads.map fun p => p.length + rev.overhead).sum

/-- No object in use ends with its block header at the end of the file, and a static area that is to be
copied is the one that the file has, before a block with more than its header or without data. -/
def Rebuildable (d : Database) (staticArea : Nat) (copyStaticData : Bool) : Prop :=
  (∀ b ∈ d.blocks, b.2.status = gxNormalBlock → b.1 + d.blockHeaderSize < d.fileSize) ∧
  (copyStaticData = true → (staticArea = 0 ∨ staticArea = d.staticArea.length) ∧
    (d.fileHeader.gxdHsFptr + sizeOfBlockHeader < d.fileSize ∨ ∀ x ∈ d.staticArea, x = 0))

/-- The new file before the loop, where a block is found. -/
def startFile (d : Database) (memory : Nat) (rev : Revision) (staticArea : Nat) (copyStaticData : Bool) :
    Database :=
  if (staticArea ≠ 0 ∧ copyStaticData) ∧
      ¬ (memory < staticArea ∨ d.fileSize < (staticArea : Int) + d.rev.fileHeaderSize) then
    (create rev staticArea).writeBytes (create rev staticArea).rev.fileHeaderSize
      (d.file.get d.rev.fileHeaderSize staticArea)
  else create rev staticArea

theorem startFile_eq (d : Database) (rev : Revision) {staticArea : Nat}
    (hStatic : staticArea + rev.fileHeaderSize < 2 ^ 63) (memory : Nat) (copyStaticData : Bool) :
    (d.startFile memory rev staticArea copyStaticData).Carries [] [] ∧
      (d.startFile memory rev staticArea copyStaticData).rev = rev ∧
      (d.startFile memory rev staticArea copyStaticData).fileHeader = newHeader rev staticArea ∧
      (d.startFile memory rev staticArea copyStaticData).staticArea =
        if (staticArea ≠ 0 ∧ copyStaticData) ∧
            ¬ (memory < staticArea ∨ d.fileSize < (staticArea : Int) + d.rev.fileHeaderSize) then
          d.file.get d.rev.fileHeaderSize staticArea
        else List.replicate staticArea 0 := by
  have hHolds := create_holds rev hStatic
  have hRev := create_rev rev staticArea
  have hHeader := create_fileHeader rev staticArea
  rw [startFile]
  split
  · have hLength : (d.file.get d.rev.fileHeaderSize staticArea).length = staticArea := Bytes.get_length
    have hRoom : (rev.fileHeaderSize : Int) + (d.file.get d.rev.fileHeaderSize staticArea).length ≤
        (create rev staticArea).fileHeader.gxdHsFptr := by
      rw [hLength, hHeader]
      dsimp only [newHeader]
      omega
    have hWritten := hHolds.writeBytes (.inr ⟨Int.le_refl _, by rwa [hRev]⟩)
    refine ⟨⟨hWritten.1, rfl, nofun⟩, hRev, hHeader, ?_⟩
    have hSize : ((newHeader rev staticArea).gxdHsFptr - rev.fileHeaderSize).toNat = staticArea := by
      dsimp only [newHeader]
      omega
    change Bytes.get (Bytes.put _ (create rev staticArea).rev.fileHeaderSize _)
      (create rev staticArea).rev.fileHeaderSize
      ((create rev staticArea).fileHeader.gxdHsFptr - (create rev staticArea).rev.fileHeaderSize).toNat = _
    rw [hHeader, hRev, hSize]
    have hPut := Bytes.get_put_self (m := (create rev staticArea).file) (a := rev.fileHeaderSize)
      (l := d.file.get d.rev.fileHeaderSize staticArea)
    rwa [hLength] at hPut
  · exact ⟨⟨hHolds, rfl, nofun⟩, hRev, hHeader, create_staticArea rev staticArea⟩

theorem fits_of_length {staticArea memory : Nat}
    (hStart : (d.rev.fileHeaderSize : Int) ≤ d.fileHeader.gxdHsFptr) (hHeap : d.fileHeader.gxdHsFptr ≤ d.fileSize) (hMemory : d.fileSize ≤ memory)
    (hOwn : staticArea = d.staticArea.length) :
    ¬ (memory < staticArea ∨ d.fileSize < (staticArea : Int) + d.rev.fileHeaderSize) := by
  rw [hOwn, staticArea_length]
  omega

theorem startFile_staticArea_iff (rev : Revision) {staticArea memory : Nat}
    (hStatic : staticArea + rev.fileHeaderSize < 2 ^ 63)
    (hStart : (d.rev.fileHeaderSize : Int) ≤ d.fileHeader.gxdHsFptr)
    (hHeap : d.fileHeader.gxdHsFptr ≤ d.fileSize) (hMemory : d.fileSize ≤ memory) :
    (d.startFile memory rev staticArea true).staticArea = d.staticArea ↔
      staticArea = d.staticArea.length := by
  rw [(d.startFile_eq rev hStatic memory true).2.2.2]
  constructor
  · intro hCopy
    rw [← hCopy]
    split
    · exact Bytes.get_length.symm
    · exact List.length_replicate.symm
  · intro hOwn
    have hFits := fits_of_length hStart hHeap hMemory hOwn
    split
    · rw [hOwn, staticArea_length]
      rfl
    · rename_i hNot
      have hZero : staticArea = 0 := by
        by_contra hNe
        exact hNot ⟨⟨hNe, rfl⟩, hFits⟩
      rw [hZero, List.replicate_zero, eq_comm, ← List.length_eq_zero_iff, ← hOwn, hZero]

theorem newStaticSize_eq (staticArea : Nat) : (if (!false) = true ∧ staticArea = 0 then
    (d.fileHeader.gxdHsFptr - d.rev.fileHeaderSize).toNat else staticArea) =
      d.newStaticSize staticArea := by
  rw [newStaticSize, staticArea_length]
  simp

section Rebuild

variable {memory staticArea : Nat} {rev : Revision} {copyStaticData : Bool}

theorem Intact.rebuild_found (h : d.Intact blocks free) (hNone : d.NoneBelow)
    (hFound : d.fileHeader.gxdHsFptr + sizeOfBlockHeader < d.fileSize) (n : Nat) :
    d.rebuild n memory rev staticArea copyStaticData =
      (Loop.result (fun s => Rebuilding.turn d s memory) n
        ⟨d.fileHeader.gxdHsFptr, d.startFile memory rev (d.newStaticSize staticArea) copyStaticData, 0, 0,
          if (d.newStaticSize staticArea ≠ 0 ∧ copyStaticData) ∧ (memory < d.newStaticSize staticArea ∨
            d.fileSize < (d.newStaticSize staticArea : Int) + d.rev.fileHeaderSize) then 1 else 0⟩).map
        fun s => ⟨s.badgx = 0 && s.rebuildErrors = 0, s.count, s.newFile.writeFileHdr⟩ := by
  have hStart := h.holds.start
  have hPos := d.rev.fileHeaderSize_pos
  have hHs : (FileHeader.ofWords (d.file.readWords 0 7)).gxdHsFptr = d.fileHeader.gxdHsFptr :=
    h.diskHsFptr
  simp only [rebuild]
  rw [h.headerErrors_eq, h.blockSearch_eq hNone, if_pos hFound, if_neg (by omega), hHs,
    newStaticSize_eq]
  rfl

theorem Intact.rebuild_notFound (h : d.Intact blocks free) (hNone : d.NoneBelow)
    (hNotFound : ¬ d.fileHeader.gxdHsFptr + sizeOfBlockHeader < d.fileSize) (n : Nat) :
    d.rebuild n memory rev staticArea copyStaticData =
      some ⟨true, 0, (create rev (d.newStaticSize staticArea)).writeFileHdr⟩ := by
  have hHs : (FileHeader.ofWords (d.file.readWords 0 7)).gxdHsFptr = d.fileHeader.gxdHsFptr :=
    h.diskHsFptr
  simp only [rebuild]
  rw [h.headerErrors_eq, h.blockSearch_eq hNone, if_neg hNotFound, if_pos rfl, hHs, newStaticSize_eq]
  rfl

/-- What is to be compared of the new file. -/
theorem restores_iff {e : Database} {good : Bool} {objects : List (List UInt8)} {count : Nat}
    (hCarries : e.Carries blocks objects) (hRev : e.rev = rev) (hCount : count = objects.length) :
    d.Restores rev copyStaticData ⟨good, count, e.writeFileHdr⟩ ↔
      good = true ∧ objects = d.payloads ∧ (copyStaticData = true → e.staticArea = d.staticArea) := by
  have hWritten : e.writeFileHdr.Carries blocks objects :=
    hCarries.of_touches (Touches.writeFileHdr hCarries.holds.fileHeaderSize_le)
      (writeFileHdr_fileHeader e)
  have hStatic : e.writeFileHdr.staticArea = e.staticArea :=
    staticArea_congr (writeFileHdr_rev e) (by rw [writeFileHdr_fileHeader])
      fun x hx _ => writeFileHdr_file hx
  constructor
  · intro h
    refine ⟨h.good, ?_, fun hCopy => ?_⟩
    · rw [← hWritten.payloads_eq]
      exact h.payloads
    · rw [← hStatic]
      exact h.staticArea hCopy
  · rintro ⟨rfl, hObjects, hArea⟩
    refine ⟨rfl, ?_, ⟨blocks, hWritten.holds⟩, ?_, ?_, ?_, ?_, ?_⟩
    · dsimp only
      rw [writeFileHdr_rev, hRev]
    · rw [← hObjects]
      exact hWritten.payloads_eq
    · dsimp only
      rw [hWritten.holds.blocks_eq]
      exact fun b hb => hWritten.status hb
    · dsimp only
      rw [hWritten.holds.blocks_eq]
      exact hWritten.checksums
    · dsimp only
      rw [hStatic]
      exact hArea
    · rw [← hObjects]
      exact hCount

theorem objectsIn_reached_iff (l : List (Int × BlockHeader)) :
    d.objectsIn (d.reached l) = d.objectsIn l ↔
      ∀ b ∈ l, b.2.status = gxNormalBlock → b.1 + d.blockHeaderSize < d.fileSize := by
  have hComm : (d.reached l).filter (fun b => b.2.status = gxNormalBlock) =
      (l.filter fun b => b.2.status = gxNormalBlock).filter
        fun b => b.1 + d.blockHeaderSize < d.fileSize := by
    rw [reached, List.filter_filter, List.filter_filter]
    exact List.filter_congr fun b _ => Bool.and_comm _ _
  rw [objectsIn, objectsIn, hComm]
  constructor
  · intro hSame b hb hUse
    have hLength := congrArg List.length hSame
    rw [List.length_map, List.length_map, List.length_filter_eq_length_iff] at hLength
    exact of_decide_eq_true (hLength b (List.mem_filter.mpr ⟨hb, decide_eq_true hUse⟩))
  · intro hAll
    rw [List.filter_eq_self.mpr]
    intro b hb
    obtain ⟨hb, hUse⟩ := List.mem_filter.mp hb
    exact decide_eq_true (hAll b hb (of_decide_eq_true hUse))

/-- On an undamaged file without anything before the heap that looks like a block header, `Rebuild`
copies the objects in use exactly if the file is of the kind that it can copy. -/
theorem Intact.restores_iff (h : d.Intact blocks free) (hNone : d.NoneBelow)
    (hMemory : d.fileSize + d.blockHeaderSize ≤ memory) (hLimit : memory < 2 ^ 63)
    (hSize : d.rebuiltSize rev staticArea < 2 ^ 63) :
    ∃ r, (∀ n, d.blocks.length < n → d.rebuild n memory rev staticArea copyStaticData = some r) ∧
      (d.Restores rev copyStaticData r ↔ d.Rebuildable staticArea copyStaticData) := by
  have hPayloads : d.payloads = d.objectsIn blocks := by rw [payloads, h.holds.blocks_eq, objectsIn]
  have hSame : d.newStaticSize staticArea = d.staticArea.length ↔
      staticArea = 0 ∨ staticArea = d.staticArea.length := by
    rw [newStaticSize]
    split <;> simp [*]
  rw [rebuiltSize, hPayloads] at hSize
  rw [Rebuildable, h.holds.blocks_eq]
  have hStart := h.holds.start
  have hTiles := h.holds.tiles.le
  have hEof := h.holds.fileSize
  by_cases hFound : d.fileHeader.gxdHsFptr + sizeOfBlockHeader < d.fileSize
  · obtain ⟨hStartFile, hRev, hHeader, -⟩ := d.startFile_eq rev
      (show d.newStaticSize staticArea + rev.fileHeaderSize < 2 ^ 63 by omega) memory copyStaticData
    have hOverhead : (d.startFile memory rev (d.newStaticSize staticArea) copyStaticData).overhead =
        rev.overhead := by rw [overhead, hRev]
    have hEnd : (newHeader rev (d.newStaticSize staticArea)).gxdEof =
        d.newStaticSize staticArea + rev.fileHeaderSize := rfl
    have hFirst : Copying d (d.startFile memory rev (d.newStaticSize staticArea) copyStaticData) []
        ⟨d.fileHeader.gxdHsFptr, d.startFile memory rev (d.newStaticSize staticArea) copyStaticData, 0, 0,
          if (d.newStaticSize staticArea ≠ 0 ∧ copyStaticData) ∧ (memory < d.newStaticSize staticArea ∨
            d.fileSize < (d.newStaticSize staticArea : Int) + d.rev.fileHeaderSize) then 1 else 0⟩ :=
      ⟨⟨[], hStartFile⟩, rfl, rfl, rfl, rfl, (Int.add_zero _).symm, fun _ _ _ => rfl⟩
    obtain ⟨t, hLoop, hCopied, hErrors⟩ := Copying.loop (show d.Holds ([] ++ blocks) free from h.holds) hMemory hLimit rfl
      h.holds.tiles hFirst (by rw [hHeader, hEnd, hOverhead, List.nil_append]; omega)
    refine ⟨⟨t.badgx = 0 && t.rebuildErrors = 0, t.count, t.newFile.writeFileHdr⟩, fun n hn => ?_, ?_⟩
    · rw [h.rebuild_found hNone hFound, hLoop n hn, Option.map_some]
    · obtain ⟨blocks', hCarries⟩ := hCopied.carries
      have hStatic : t.newFile.staticArea =
          (d.startFile memory rev (d.newStaticSize staticArea) copyStaticData).staticArea := by
        refine staticArea_congr hCopied.rev hCopied.start fun x hx hx' => hCopied.kept x hx ?_
        rw [hHeader] at hx' ⊢
        exact hx'
      refine (Database.restores_iff hCarries (hCopied.rev.trans hRev) hCopied.count).trans ?_
      rw [hStatic, hPayloads, hErrors, hCopied.badgx, List.nil_append, objectsIn_reached_iff]
      cases copyStaticData with
      | false => simp
      | true =>
        have hInMemory : d.fileSize ≤ memory := by omega
        have hCopies := startFile_staticArea_iff rev
          (show d.newStaticSize staticArea + rev.fileHeaderSize < 2 ^ 63 by omega) hStart (by omega)
          hInMemory
        have hFits := fun hOwn : d.newStaticSize staticArea = d.staticArea.length =>
          fits_of_length hStart (by omega) hInMemory hOwn
        simp only [hCopies, ← hSame, forall_const, hFound, true_or, and_true]
        constructor
        · exact fun hAll => ⟨hAll.2.1, hAll.2.2⟩
        · rintro ⟨hAll, hOwn⟩
          refine ⟨?_, hAll, hOwn⟩
          rw [if_neg fun hBoth => hFits hOwn hBoth.2]
          rfl
  · refine ⟨_, fun n _ => h.rebuild_notFound hNone hFound n, ?_⟩
    have hEmpty : (create rev (d.newStaticSize staticArea)).Carries [] [] :=
      ⟨create_holds rev (by omega), rfl, by simp⟩
    have hLe : sizeOfBlockHeader ≤ d.blockHeaderSize := d.rev.sizeOfBlockHeader_le
    have hReached : d.reached blocks = [] := by
      rw [reached, List.filter_eq_nil_iff]
      intro b hb
      have hBounds := h.holds.tiles.bounds hb
      rw [decide_eq_true_eq]
      omega
    refine (Database.restores_iff hEmpty (create_rev _ _) rfl).trans ?_
    rw [create_staticArea, hPayloads, ← objectsIn_reached_iff, hReached, eq_comm (a := List.replicate _ _),
      List.eq_replicate_iff, eq_comm (a := d.staticArea.length), hSame]
    simp only [hFound, false_or, true_and]
    rfl

end Rebuild

/-- After any history of calls and writes, `Rebuild` returns, and restores the objects in use exactly if
the file is of the kind that it can copy, provided that nothing before the heap looks like a block
header. -/
theorem rebuild_restores_iff (oldRev : Revision) {staticSize : Nat}
    (hStatic : staticSize + oldRev.fileHeaderSize < 2 ^ 63) {calls : List (Int × FileCall)}
    (hCalls : fileCalls.Along FileCall.Proper calls (create oldRev staticSize)) {d : Database}
    (hd : (fileCalls.run calls (create oldRev staticSize)).2 = d) (hNone : d.NoneBelow)
    {memory : Nat} (hMemory : d.fileSize + d.blockHeaderSize ≤ memory) (hLimit : memory < 2 ^ 63)
    (rev : Revision) (staticArea : Nat) (copyStaticData : Bool)
    (hSize : d.rebuiltSize rev staticArea < 2 ^ 63) :
    ∃ r, (∀ n, d.blocks.length < n → d.rebuild n memory rev staticArea copyStaticData = some r) ∧
      (d.Restores rev copyStaticData r ↔ d.Rebuildable staticArea copyStaticData) := by
  obtain ⟨blocks, free, h⟩ := run_intact oldRev hStatic hCalls
  rw [hd] at h
  exact h.restores_iff hNone hMemory hLimit hSize

/-- An object, one that is deleted and an empty one, which is followed by another. -/
theorem rebuild_restores_iff_B : ∃ d,
    (fileCalls.run [(0, .heap (.alloc 8 .none)), (112, .write 120 [1, 2, 3]),
      (123, .heap (.alloc 8 .none)), (160, .heap (.delete 160)), (80, .heap (.alloc 0 .none)),
      (80, .heap (.alloc 1 .none))] (create .B 8)).2 = d ∧ d.NoneBelow ∧
    d.fileSize + d.blockHeaderSize ≤ (1000 : Nat) ∧ d.rebuiltSize .E 0 < 2 ^ 63 ∧
    ∃ r, (∀ n, d.blocks.length < n → d.rebuild n 1000 .E 0 true = some r) ∧
      (d.Restores .E true r ↔ d.Rebuildable 0 true) := by
  refine ⟨_, rfl, by decide +kernel, by decide +kernel, by decide +kernel, ?_⟩
  exact rebuild_restores_iff .B (by decide) (by decide +kernel) rfl (by decide +kernel)
    (by decide +kernel) (by decide) .E 0 true (by decide +kernel)

/-- An empty object at the end of a file of revision E is lost. -/
theorem rebuild_loses :
    fileCalls.Along FileCall.Proper [(0, .heap (.alloc 8 .none)), (136, .heap (.alloc 0 .none))]
      (create .E 0) ∧
    ((fileCalls.run [(0, .heap (.alloc 8 .none)), (136, .heap (.alloc 0 .none))]
      (create .E 0)).2.rebuild 10 1000 .E 0 true).map (fun r => (r.good, r.numObjects)) =
        some (true, 1) ∧
    (fileCalls.run [(0, .heap (.alloc 8 .none)), (136, .heap (.alloc 0 .none))]
      (create .E 0)).2.payloads.length = 2 := by
  decide +kernel

/-- A static area with the bytes of a block header in it becomes an object. -/
theorem rebuild_invents :
    fileCalls.Along FileCall.Proper [(0, .write 104 headerBytes), (136, .heap (.alloc 8 .none))]
      (create .E 40) ∧
    ((fileCalls.run [(0, .write 104 headerBytes), (136, .heap (.alloc 8 .none))]
      (create .E 40)).2.rebuild 10 1000 .E 0 true).map (fun r => (r.good, r.numObjects)) =
        some (true, 2) ∧
    (fileCalls.run [(0, .write 104 headerBytes), (136, .heap (.alloc 8 .none))]
      (create .E 40)).2.payloads.length = 1 := by
  decide +kernel

end Database

end DataReel
