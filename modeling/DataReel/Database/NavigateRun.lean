import DataReel.Database.Navigate

/-! # Navigation after any history

Histories of heap calls and of writes into the objects, whose bytes may look
like block headers. After any of them the traversals of the file find the blocks
in use.
-/

namespace DataReel

/-- A call on the heap, or a write of bytes at an address. -/
inductive FileCall
  | heap (c : HeapCall)
  | write (address : Int) (bytes : List UInt8)
  deriving DecidableEq

namespace Database

def writeBytes (d : Database) (address : Int) (bytes : List UInt8) : Database :=
  { d with
    file := d.file.put address bytes
    fileSize := max d.fileSize (address + bytes.length) }

def fileCalls : Machine (Int × FileCall) HeapReply Database where
  step c d :=
    match c.2 with
    | .heap call => heapCalls.step (c.1, call) d
    | .write address bytes => (.flag true, d.writeBytes address bytes)

end Database

namespace FileCall

/-- Allocations are of at least one byte and end at an address, calls on an object find a block at its
address if they find one, and writes stay in a block in use, behind its header. -/
def Allowed (c : Int × FileCall) (d : Database) : Prop :=
  match c.2 with
  | .heap call => HeapCall.Allowed (c.1, call) d ∧ ∀ bytes method, call = .alloc bytes method → 0 < bytes
  | .write address bytes => ∃ b ∈ d.blocks, b.2.status = gxNormalBlock ∧
      b.1 + sizeOfBlockHeader ≤ address ∧ address + bytes.length ≤ b.1 + b.2.blockLength

instance (d : Database) : ∀ c, Decidable (Allowed c d)
  | (position, .heap (.alloc bytes method)) =>
    decidable_of_iff (HeapCall.Allowed (position, .alloc bytes method) d ∧ 0 < bytes)
      ⟨fun h => ⟨h.1, fun _ _ hCall => by cases hCall; exact h.2⟩, fun h => ⟨h.1, h.2 bytes method rfl⟩⟩
  | (position, .heap (.delete a)) =>
    decidable_of_iff (HeapCall.Allowed (position, .delete a) d)
      ⟨fun h => ⟨h, fun _ _ hCall => by cases hCall⟩, fun h => h.1⟩
  | (position, .heap (.remove a)) =>
    decidable_of_iff (HeapCall.Allowed (position, .remove a) d)
      ⟨fun h => ⟨h, fun _ _ hCall => by cases hCall⟩, fun h => h.1⟩
  | (position, .heap (.unDelete a)) =>
    decidable_of_iff (HeapCall.Allowed (position, .unDelete a) d)
      ⟨fun h => ⟨h, fun _ _ hCall => by cases hCall⟩, fun h => h.1⟩
  | (_, .write address bytes) =>
    inferInstanceAs (Decidable (∃ b ∈ d.blocks, b.2.status = gxNormalBlock ∧
      b.1 + sizeOfBlockHeader ≤ address ∧ address + bytes.length ≤ b.1 + b.2.blockLength))

end FileCall

namespace Database

variable {d d' : Database} {blocks pre post : List (Int × BlockHeader)} {free : List Int}

/-! ## What a call preserves -/

theorem Touches.writeBytes {address : Int} {bytes : List UInt8}
    (hSize : address + bytes.length ≤ d.fileSize) :
    Touches [(address, bytes.length)] d (d.writeBytes address bytes) :=
  ⟨fun _ _ hApart => Bytes.put_outside (hApart _ List.mem_cons_self), max_eq_left hSize, rfl⟩

theorem Holds.writeBytes (h : d.Holds blocks free) {address : Int} {bytes : List UInt8}
    (hPlace : (∃ b ∈ blocks, b.1 + sizeOfBlockHeader ≤ address ∧
        address + bytes.length ≤ b.1 + b.2.blockLength) ∨
      (d.rev.fileHeaderSize : Int) ≤ address ∧ address + bytes.length ≤ d.fileHeader.gxdHsFptr) :
    (d.writeBytes address bytes).Holds blocks free ∧
      (d.writeBytes address bytes).diskHeader = d.diskHeader := by
  have hSize := d.rev.sizeOfFileHeader_le
  have hTiles := h.tiles.le
  have hFits : (sizeOfFileHeader : Int) ≤ address ∧ address + bytes.length ≤ d.fileSize := by
    rcases hPlace with ⟨b, hb, hLow, hHigh⟩ | hStatic
    · have hBounds := h.bounds hb
      omega
    · rw [h.fileSize]
      omega
  refine ⟨h.of_touches (Touches.writeBytes hFits.2) rfl fun c hc p hp => ?_, ?_⟩
  · obtain rfl := List.mem_singleton.mp hp
    dsimp only
    rcases hPlace with ⟨b, hb, hLow, hHigh⟩ | hStatic
    · by_cases hSame : c.1 = b.1
      · exact .inl (by rw [hSame]; exact hLow)
      · have hApart := h.tiles.apart_of_ne hc hb hSame
        have hHeader := (h.header_le hc).1
        omega
    · have hBounds := h.tiles.bounds hc
      omega
  · exact diskHeader_congr fun x _ hx => Bytes.put_outside (.inl (by omega))

theorem Mapped.writeBytes (h : d.Mapped blocks free) {address : Int} {bytes : List UInt8}
    (hPlace : (∃ b ∈ blocks, b.1 + sizeOfBlockHeader ≤ address ∧
        address + bytes.length ≤ b.1 + b.2.blockLength) ∨
      (d.rev.fileHeaderSize : Int) ≤ address ∧ address + bytes.length ≤ d.fileHeader.gxdHsFptr) :
    (d.writeBytes address bytes).Mapped blocks free := by
  obtain ⟨hHolds, hDisk⟩ := h.holds.writeBytes hPlace
  refine ⟨hHolds, h.room, h.revOfSig, h.words, ?_, ?_, ?_, ?_⟩
  · rw [hDisk]
    exact h.diskFsFptr
  · rw [hDisk]
    exact h.diskEof
  · rw [hDisk]
    exact h.diskHsFptr
  · rw [hDisk]
    exact h.diskSig

theorem unlink_head (hdr : BlockHeader) (prev : Option (Int × BlockHeader)) :
    ∃ x, (d.unlink hdr prev).fileHeader = { d.fileHeader with gxdFsFptr := x } := by
  rw [unlink.eq_def]
  cases prev with
  | none => exact ⟨hdr.blockNdFptr, by rw [writeFileHdr_fileHeader]; rfl⟩
  | some b => exact ⟨_, rfl⟩

theorem delete_fileHeader (position a : Int) (removeObject : Bool) :
    ∃ x, (d.delete position a removeObject).2.fileHeader = { d.fileHeader with gxdFsFptr := x } := by
  rw [delete.eq_def]
  dsimp only
  split
  · exact ⟨_, rfl⟩
  · split
    · exact ⟨_, rfl⟩
    · split
      · exact ⟨_, rfl⟩
      · exact ⟨_, by rw [writeFileHdr_fileHeader]; rfl⟩

theorem unDelete_fileHeader {n : Nat} {position a : Int} {r : Bool × Database}
    (hReturns : d.unDelete n position a = some r) :
    ∃ x, r.2.fileHeader = { d.fileHeader with gxdFsFptr := x } := by
  rw [unDelete.eq_def] at hReturns
  dsimp only at hReturns
  split at hReturns
  · obtain rfl := Option.some.inj hReturns
    exact ⟨_, rfl⟩
  · split at hReturns
    · obtain rfl := Option.some.inj hReturns
      exact ⟨_, rfl⟩
    · obtain ⟨w, -, rfl⟩ := Option.map_eq_some_iff.mp hReturns
      split
      · exact ⟨_, rfl⟩
      · exact ⟨_, rfl⟩
      iterate 2
        dsimp only
        rw [corruptFSList, writeFileHdr_fileHeader]
        exact ⟨_, rfl⟩
      exact unlink_head _ _

theorem step_fileHeader {c : Int × HeapCall} (hCall : ∀ bytes method, c.2 ≠ .alloc bytes method) :
    ∃ x, (heapCalls.step c d).2.fileHeader = { d.fileHeader with gxdFsFptr := x } := by
  obtain ⟨position, call⟩ := c
  cases call with
  | alloc bytes method => exact absurd rfl (hCall bytes method)
  | delete a => exact delete_fileHeader position a false
  | remove a => exact delete_fileHeader position a true
  | unDelete a =>
    simp only [heapCalls]
    split
    · rename_i hReturns
      exact unDelete_fileHeader hReturns
    · exact ⟨_, rfl⟩

theorem Holds.nil_of_start (h : d.Holds blocks free)
    (hEmpty : d.fileHeader.gxdHsFptr = d.fileHeader.gxdEof) : blocks = [] := by
  cases blocks with
  | nil => rfl
  | cons b l =>
    have hBounds := h.tiles.bounds (List.mem_cons_self (a := b))
    have hLength := h.blockLength_pos (List.mem_cons_self (a := b))
    omega

theorem Mapped.heap (h : d.Mapped blocks free) {c : Int × HeapCall} (hAllowed : HeapCall.Allowed c d)
    (hBytes : ∀ bytes method, c.2 = .alloc bytes method → 0 < bytes) :
    ∃ blocks' free', (heapCalls.step c d).2.Mapped blocks' free' := by
  obtain ⟨a, blocks', free', hChanges, hEffect⟩ := HeapCall.step_effect c h.holds hAllowed
  obtain ⟨hFs, hEof, hStart, hSig⟩ := disk_header hChanges h.words h.diskFsFptr h.diskEof
    h.diskHsFptr h.diskSig
  have hSize : (heapCalls.step c d).2.blockHeaderSize = d.blockHeaderSize := by
    rw [blockHeaderSize, hChanges.rev, blockHeaderSize]
  refine ⟨blocks', free', hChanges.holds, ?_, ?_, ?_, hFs, hEof, hStart, hSig⟩
  · cases hCall : c.2 with
    | alloc bytes method =>
      have hPos := hBytes bytes method hCall
      rw [hCall] at hEffect
      generalize (heapCalls.step c d).1 = reply at hEffect
      cases hEffect with
      | refused target => cases target
      | allocated new _ =>
        have hBounds := hChanges.holds.tiles.bounds new
        have hOverhead : d.blockHeaderSize ≤ d.overhead := Nat.le_add_right _ _
        dsimp only [BlockHeader.normal] at hBounds
        rw [hSize]
        right
        omega
    | _ =>
      obtain ⟨x, hHeader⟩ := step_fileHeader (d := d) (c := c) (by simp [hCall])
      have hSame : (heapCalls.step c d).2.fileHeader.gxdEof = d.fileHeader.gxdEof := by rw [hHeader]
      rw [hSize, hChanges.start, hSame]
      refine h.room.imp_left fun hNil => hChanges.holds.nil_of_start ?_
      have hTiles := h.holds.tiles
      rw [hNil] at hTiles
      rw [hChanges.start, hSame]
      exact hTiles
  · rw [hChanges.sig, hChanges.rev]
    exact h.revOfSig
  · rw [hChanges.sig]
    exact h.words

theorem Mapped.step (h : d.Mapped blocks free) {c : Int × FileCall} (hAllowed : FileCall.Allowed c d) :
    ∃ blocks' free', (fileCalls.step c d).2.Mapped blocks' free' := by
  obtain ⟨position, call⟩ := c
  cases call with
  | heap call => exact h.heap hAllowed.1 hAllowed.2
  | write address bytes =>
    obtain ⟨b, hb, -, hLow, hHigh⟩ := hAllowed
    rw [h.holds.blocks_eq] at hb
    exact ⟨blocks, free, h.writeBytes (.inl ⟨b, hb, hLow, hHigh⟩)⟩

theorem create_mapped (rev : Revision) {staticSize : Nat}
    (hStatic : staticSize + rev.fileHeaderSize < 2 ^ 63) :
    ∃ blocks free, (create rev staticSize).Mapped blocks free := by
  obtain ⟨blocks, free, hHolds, -⟩ := create_kept rev hStatic
  have hHeader := create_fileHeader rev staticSize
  have hDisk := create_diskHeader rev hStatic
  refine ⟨blocks, free, hHolds, .inl (hHolds.nil_of_start ?_), ?_, ?_, ?_, ?_, ?_, ?_⟩
  · rw [hHeader]
    rfl
  · rw [hHeader, create_rev]
    change revOfSig (gxSignature.1, gxSignature.2 + rev.letter * 256) = rev
    cases rev <;> decide
  · rw [hHeader]
    change gxSignature.1 < 2 ^ 64 ∧ gxSignature.2 + rev.letter * 256 < 2 ^ 64
    cases rev <;> decide
  all_goals rw [hDisk, hHeader]

theorem run_mapped (rev : Revision) {staticSize : Nat}
    (hStatic : staticSize + rev.fileHeaderSize < 2 ^ 63) {calls : List (Int × FileCall)}
    (hCalls : fileCalls.Along FileCall.Allowed calls (create rev staticSize)) :
    ∃ blocks free, (fileCalls.run calls (create rev staticSize)).2.Mapped blocks free := by
  refine Machine.run_invariant (M := fileCalls) (P := FileCall.Allowed)
    (I := fun d => ∃ blocks free, d.Mapped blocks free) ?_ (create_mapped rev hStatic) hCalls
  rintro c d ⟨blocks, free, h⟩ hAllowed
  exact h.step hAllowed

/-! ## Traversals -/

section Traversal

variable {position : Int → Int} {done rest : List Int} {x : Int}

theorem exists_block_of_objects (h : d.objectsOf blocks = done ++ x :: rest) :
    ∃ pre b post, blocks = pre ++ b :: post ∧ x = b.1 + d.blockHeaderSize ∧
      d.objectsOf pre = done ∧ d.objectsOf post = rest := by
  rw [objectsOf, List.map_eq_append_iff] at h
  obtain ⟨l, l', hSplit, hDone, hCons⟩ := h
  obtain ⟨b, m', rfl, rfl, hRest⟩ := List.map_eq_cons_iff.mp hCons
  obtain ⟨pre, m, rfl, hPre, hMid⟩ := List.filter_eq_append_iff.mp hSplit
  obtain ⟨mid, post, rfl, hSkipped, -, hPost⟩ := List.filter_eq_cons_iff.mp hMid
  refine ⟨pre ++ mid, b, post, by rw [List.append_assoc], rfl, ?_, ?_⟩
  · rw [objectsOf, List.filter_append, List.filter_eq_nil_iff.mpr hSkipped, List.append_nil, hPre]
    exact hDone
  · rw [objectsOf, hPost]
    exact hRest

theorem Mapped.object_ne_zero (h : d.Mapped blocks free) (hx : x ∈ d.objectsOf blocks) : x ≠ 0 := by
  obtain ⟨done, rest, hSplit⟩ := List.mem_iff_append.mp hx
  obtain ⟨pre, b, post, rfl, rfl, -⟩ := exists_block_of_objects hSplit
  have hPos := (h.holds.bounds (b := b) (List.mem_append_right _ List.mem_cons_self)).1
  omega

/-- From an object on, repeated calls find the rest. -/
theorem Mapped.traverse_next (h : d.Mapped blocks free) {n : Nat} (hn : rest.length < n)
    (hObjects : d.objectsOf blocks = done ++ rest) :
    traverse (fun d a => d.findNextObject (position a) a) n (some (rest.head?.getD 0), d) = rest := by
  induction rest generalizing d done n with
  | nil =>
    obtain ⟨n, rfl⟩ := Nat.exists_eq_succ_of_ne_zero (Nat.ne_of_gt hn)
    rfl
  | cons x rest ih =>
    obtain ⟨n, rfl⟩ := Nat.exists_eq_succ_of_ne_zero (Nat.ne_of_gt (Nat.zero_lt_of_lt hn))
    have hNe : x ≠ 0 := h.object_ne_zero (by rw [hObjects]; simp)
    obtain ⟨pre, b, post, rfl, rfl, hDone, hRest⟩ := exists_block_of_objects hObjects
    obtain ⟨hTest, hRev⟩ := h.test
    refine (if_neg hNe).trans ?_
    change _ :: traverse _ n (d.findNextObject (position (b.1 + d.blockHeaderSize))
      (b.1 + d.blockHeaderSize)) = _
    rw [h.findNextObject_eq, hRest]
    have hAfter : d.testFileHeader.objectsOf (pre ++ b :: post) =
        (done ++ [b.1 + d.blockHeaderSize]) ++ rest := by
      rw [objectsOf_eq hRev, hObjects, List.append_assoc]
      rfl
    exact congrArg (_ :: ·) (ih hTest (Nat.lt_of_succ_lt_succ hn) hAfter)

/-- Back from an object, repeated calls find those before it. -/
theorem Mapped.traverse_prev (h : d.Mapped blocks free) {n : Nat} (hn : done.length < n)
    (hObjects : d.objectsOf blocks = done ++ rest) :
    traverse (fun d a => d.findPrevObject (position a) a) n (some (done.getLast?.getD 0), d) =
      done.reverse := by
  induction hLength : done.length generalizing d done rest n with
  | zero =>
    obtain ⟨n, rfl⟩ := Nat.exists_eq_succ_of_ne_zero (Nat.ne_of_gt (Nat.zero_lt_of_lt hn))
    obtain rfl := List.length_eq_zero_iff.mp hLength
    rfl
  | succ m ih =>
    obtain ⟨n, rfl⟩ := Nat.exists_eq_succ_of_ne_zero (Nat.ne_of_gt (Nat.zero_lt_of_lt hn))
    obtain ⟨done, x, rfl⟩ := (List.eq_nil_or_concat done).resolve_left (by
      rintro rfl
      cases hLength)
    rw [List.concat_eq_append] at hn hLength hObjects ⊢
    rw [List.append_assoc] at hObjects
    have hNe : x ≠ 0 := h.object_ne_zero (by rw [hObjects]; simp)
    obtain ⟨pre, b, post, rfl, rfl, hDone, hRest⟩ := exists_block_of_objects hObjects
    obtain ⟨hTest, hRev⟩ := h.test
    rw [List.length_append, List.length_singleton] at hn hLength
    rw [List.getLast?_append, List.getLast?_singleton, Option.some_or, Option.getD_some,
      List.reverse_append, List.reverse_singleton]
    refine (if_neg hNe).trans ?_
    change _ :: traverse _ n (d.findPrevObject (position (b.1 + d.blockHeaderSize))
      (b.1 + d.blockHeaderSize)) = _
    rw [h.findPrevObject_eq, hDone]
    have hBefore : d.testFileHeader.objectsOf (pre ++ b :: post) =
        done ++ ((b.1 + d.blockHeaderSize) :: rest) := by
      rw [objectsOf_eq hRev, hObjects]
      rfl
    exact congrArg (_ :: ·) (ih hTest (by omega) hBefore (by omega))

theorem Holds.objectsOf_sorted (h : d.Holds blocks free) :
    (d.objectsOf blocks).Pairwise (· < ·) := by
  have hBlocks : blocks.Pairwise fun b c => b.1 < c.1 :=
    h.tiles.pairwise fun b hb => h.blockLength_pos hb
  refine List.pairwise_map.mpr ((hBlocks.sublist List.filter_sublist).imp fun {b c} hLess => ?_)
  omega

end Traversal

/-- What the traversals of a file find: the blocks in use of those that fill the heap. -/
structure Traversed (d : Database) : Prop where
  tiles : Tiles BlockHeader.blockLength d.fileHeader.gxdHsFptr d.blocks d.fileHeader.gxdEof
  sorted : d.objects.Pairwise (· < ·)
  forward : ∀ (position : Int → Int) (n : Nat), d.objects.length < n →
    traverse (fun d a => d.findNextObject (position a) a) n (d.findFirstObject (position 0) 0) =
      d.objects
  backward : ∀ (position : Int → Int) (n : Nat) (x : Int), d.objects.getLast? = some x →
    d.objects.length < n →
      x :: traverse (fun d a => d.findPrevObject (position a) a) n (d.findPrevObject (position x) x) =
        d.objects.reverse

theorem Mapped.traversed (h : d.Mapped blocks free) : d.Traversed := by
  have hBlocks := h.holds.blocks_eq
  have hObjects : d.objects = d.objectsOf blocks := by rw [objects, hBlocks, objectsOf]
  obtain ⟨hTest, hRev⟩ := h.test
  refine ⟨?_, ?_, fun position n hn => ?_, fun position n x hLast hn => ?_⟩
  · rw [hBlocks]
    exact h.holds.tiles
  · rw [hObjects]
    exact h.holds.objectsOf_sorted
  · rw [hObjects] at hn ⊢
    rw [h.findFirstObject_eq]
    have hAll : d.testFileHeader.objectsOf blocks = [] ++ d.objectsOf blocks :=
      objectsOf_eq hRev blocks
    exact hTest.traverse_next hn hAll
  · rw [hObjects] at hn hLast ⊢
    obtain ⟨done, hDone⟩ := List.getLast?_eq_some_iff.mp hLast
    obtain ⟨pre, b, post, rfl, rfl, hPre, hPost⟩ := exists_block_of_objects hDone
    rw [hDone, List.length_append] at hn
    rw [hDone, h.findPrevObject_eq, hPre, List.reverse_append, List.reverse_singleton]
    have hBefore : d.testFileHeader.objectsOf (pre ++ b :: post) =
        done ++ [b.1 + d.blockHeaderSize] := by
      rw [objectsOf_eq hRev, hDone]
    exact congrArg (_ :: ·) (hTest.traverse_prev (by omega) hBefore)

/-- The traversals find the blocks in use after any history of a new file. -/
theorem fileCalls_traversed (rev : Revision) {staticSize : Nat}
    (hStatic : staticSize + rev.fileHeaderSize < 2 ^ 63) {calls : List (Int × FileCall)}
    (hCalls : fileCalls.Along FileCall.Allowed calls (create rev staticSize)) :
    (fileCalls.run calls (create rev staticSize)).2.Traversed := by
  obtain ⟨blocks, free, h⟩ := run_mapped rev hStatic hCalls
  exact h.traversed

/-- The header of a normal block, as bytes that an object may hold. -/
def headerBytes : List UInt8 :=
  [0xfe, 0xfe, 0, 0, 0, 0, 0, 0, 40, 0, 0, 0, 0, 0, 0, 0, 0x4e, 0, 0, 0, 0, 0, 0, 0] ++
    List.replicate 8 0

/-- An object that holds a block header, between one that is deleted and one that is removed. -/
theorem fileCalls_traversed_E :
    (fileCalls.run [(0, .heap (.alloc 8 .none)), (136, .heap (.alloc 40 .none)),
      (176, .heap (.alloc 8 .none)), (248, .write 176 headerBytes), (176, .heap (.delete 136)),
      (104, .heap (.remove 248))] (create .E 0)).2.Traversed := by
  exact fileCalls_traversed .E (by decide) (by decide +kernel)

/-- An object address whose block address is `gxCurrAddress`: the header of the first block is read
where the last call has left the file position, and written over that of the second. The objects at 136
and 176 are in use, and the traversal ends at the first. -/
theorem fileCalls_lost :
    (fileCalls.run [(0, .heap (.alloc 8 .none)), (136, .heap (.alloc 8 .none)),
      (176, .heap (.alloc 8 .none)), (216, .heap (.delete 216)), (104, .heap (.delete 31))]
      (create .E 0)).1 = [.address 136, .address 176, .address 216, .flag true, .flag true] ∧
    traverse (fun d a => d.findNextObject a a) 4
      ((fileCalls.run [(0, .heap (.alloc 8 .none)), (136, .heap (.alloc 8 .none)),
        (176, .heap (.alloc 8 .none)), (216, .heap (.delete 216)), (104, .heap (.delete 31))]
        (create .E 0)).2.findFirstObject 104 0) = [136] := by
  decide +kernel

end Database

end DataReel
