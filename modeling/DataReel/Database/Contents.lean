import DataReel.Database.Buffers
import DataReel.Database.RebuildRun
import Mathlib.Logic.Function.Basic

/-! # The objects by their addresses

An undamaged file is a finite map from addresses to bytes. An allocation adds an
address, a deletion takes one away, and a write inside an object replaces a part
of its bytes; whatever is reused or split on the way, the other objects stay.
-/

namespace DataReel.Database

variable (d : Database)

/-- The bytes of the object at an address, if a block in use is there. -/
def object (a : Int) : Option (List UInt8) :=
  (d.blocks.find? fun b => b.1 + d.blockHeaderSize = a ∧ b.2.status = gxNormalBlock).map d.payload

/-- A file that the engine has written alone. -/
def Undamaged : Prop := ∃ blocks free, d.Intact blocks free

variable {d} {d' : Database} {blocks : List (Int × BlockHeader)} {free : List Int}
  {b : Int × BlockHeader} {a : Int} {l : List UInt8}

namespace Holds

theorem object_eq_some_iff (h : d.Holds blocks free) :
    d.object a = some l ↔ ∃ b ∈ blocks, b.2.isFree = false ∧ b.1 + d.blockHeaderSize = a ∧
      d.payload b = l := by
  rw [object, h.blocks_eq, Option.map_eq_some_iff]
  constructor
  · rintro ⟨b, hFind, hPayload⟩
    have hb := List.mem_of_find?_eq_some hFind
    have hTest := List.find?_some hFind
    obtain ⟨hAt, hStatus⟩ := of_decide_eq_true hTest
    exact ⟨b, hb, (h.sound b hb).status_iff.mp hStatus, hAt, hPayload⟩
  · rintro ⟨b, hb, hUse, hAt, hPayload⟩
    have hTest : (decide (b.1 + d.blockHeaderSize = a ∧ b.2.status = gxNormalBlock)) = true :=
      decide_eq_true ⟨hAt, (h.sound b hb).status_iff.mpr hUse⟩
    have hSome : (blocks.find? fun b =>
        decide (b.1 + d.blockHeaderSize = a ∧ b.2.status = gxNormalBlock)).isSome :=
      List.find?_isSome.mpr ⟨b, hb, hTest⟩
    obtain ⟨c, hFind⟩ := Option.isSome_iff_exists.mp hSome
    have hc := List.mem_of_find?_eq_some hFind
    have hTest' := List.find?_some hFind
    obtain ⟨hAt', -⟩ := of_decide_eq_true hTest'
    have hSame : c = b := h.tiles.unique (fun c => h.blockLength_pos) hc hb (by omega)
    exact ⟨c, hFind, by rw [hSame, hPayload]⟩

theorem object_eq_none_iff (h : d.Holds blocks free) :
    d.object a = none ↔ ∀ b ∈ blocks, b.1 + d.blockHeaderSize = a → b.2.isFree = true := by
  rw [← Option.not_isSome_iff_eq_none, Option.isSome_iff_exists]
  constructor
  · intro hNone b hb hAt
    cases hFree : b.2.isFree with
    | true => rfl
    | false => exact absurd ⟨_, h.object_eq_some_iff.mpr ⟨b, hb, hFree, hAt, rfl⟩⟩ hNone
  · rintro hAll ⟨l, hl⟩
    obtain ⟨b, hb, hUse, hAt, -⟩ := h.object_eq_some_iff.mp hl
    rw [hAll b hb hAt] at hUse
    cases hUse

theorem mem_objects_iff (h : d.Holds blocks free) : a ∈ d.objects ↔ (d.object a).isSome := by
  rw [Option.isSome_iff_exists, objects, h.blocks_eq]
  constructor
  · intro ha
    obtain ⟨b, hb, hAt⟩ := List.mem_map.mp ha
    obtain ⟨hb, hStatus⟩ := List.mem_filter.mp hb
    exact ⟨_, h.object_eq_some_iff.mpr ⟨b, hb,
      (h.sound b hb).status_iff.mp (of_decide_eq_true hStatus), hAt, rfl⟩⟩
  · rintro ⟨l, hl⟩
    obtain ⟨b, hb, hUse, hAt, -⟩ := h.object_eq_some_iff.mp hl
    exact List.mem_map.mpr ⟨b, List.mem_filter.mpr
      ⟨hb, decide_eq_true ((h.sound b hb).status_iff.mpr hUse)⟩, hAt⟩

theorem objects_nodup (h : d.Holds blocks free) : d.objects.Nodup := by
  rw [objects, h.blocks_eq]
  refine List.Pairwise.map _ (R := fun b c => b.1 < c.1) (fun b c hLt hEq => ?_)
    ((h.tiles.pairwise fun b => h.blockLength_pos).sublist List.filter_sublist)
  omega

end Holds

theorem Changes.object_eq {blocks' : List (Int × BlockHeader)} {free' : List Int}
    (h : d.Holds blocks free) (hChanges : Changes d d' a blocks blocks' free') {x : Int}
    (hx : x ≠ a + d.blockHeaderSize) : d'.object x = d.object x := by
  have hSize : d'.blockHeaderSize = d.blockHeaderSize := by
    rw [blockHeaderSize, hChanges.rev, blockHeaderSize]
  have hPayload (b) (hb : b ∈ blocks) (hUse : b.2.isFree = false) (hne : b.1 ≠ a) :
      d'.payload b = d.payload b :=
    payload_congr hChanges.rev fun y hy hy' => hChanges.kept b hb hUse hne y (by omega) hy'
  refine Option.ext fun l => ?_
  rw [hChanges.holds.object_eq_some_iff, h.object_eq_some_iff, hSize]
  constructor
  · rintro ⟨b, hb, hUse, rfl, rfl⟩
    have hne : b.1 ≠ a := by omega
    have hOld := hChanges.before b hb hUse hne
    exact ⟨b, hOld, hUse, rfl, (hPayload b hOld hUse hne).symm⟩
  · rintro ⟨b, hb, hUse, rfl, rfl⟩
    have hne : b.1 ≠ a := by omega
    exact ⟨b, hChanges.inUse b hb hUse hne, hUse, rfl, hPayload b hb hUse hne⟩

theorem fileCalls_rev {c : Int × FileCall} (h : d.Intact blocks free) (hProper : FileCall.Proper c d) :
    (fileCalls.step c d).2.rev = d.rev := by
  obtain ⟨position, call⟩ := c
  cases call with
  | heap call =>
    obtain ⟨a, blocks', free', hChanges, -⟩ := HeapCall.step_effect (position, call) h.holds hProper
    exact hChanges.rev
  | write address bytes => rfl

theorem revOfSig_letter (rev : Revision) :
    revOfSig (gxSignature.1, gxSignature.2 + rev.letter * 256) = rev := by
  cases rev <;> decide

theorem Intact.test (h : d.Intact blocks free) :
    d.testFileHeader.Intact blocks free ∧ d.testFileHeader.rev = d.rev ∧
      d.testFileHeader.file = d.file ∧ d.testFileHeader.fileSize = d.fileSize ∧
      d.testFileHeader.fileHeader.gxdHsFptr = d.fileHeader.gxdHsFptr := by
  have hHeader := h.holds.fileHeaderSize_le
  have hLe := d.rev.sizeOfFileHeader_le
  obtain ⟨hFile, hFileSize, hSame | ⟨hNew, hRev⟩⟩ := testFileHeader_eq (d := d) (by omega)
  · rw [hSame]
    exact ⟨h, rfl, rfl, rfl, rfl⟩
  · have hRevOfSig : revOfSig d.diskHeader.gxdSig = d.rev := by
      rw [h.diskSig, h.sig]
      exact revOfSig_letter d.rev
    have hRev' : d.testFileHeader.rev = d.rev := hRev.trans hRevOfSig
    have hDisk : d.testFileHeader.diskHeader = d.testFileHeader.fileHeader := by
      rw [hNew, diskHeader, diskHeader, hFile]
    have hHolds : d.testFileHeader.Holds blocks free :=
      h.holds.of_same hFile hFileSize hRev' (hNew ▸ h.diskFsFptr) (hNew ▸ h.diskEof) (hNew ▸ h.diskHsFptr)
    refine ⟨⟨hHolds, ?_, ?_, ?_, ?_, ?_, fun hNil => ?_⟩, hRev', hFile, hFileSize, hNew ▸ h.diskHsFptr⟩
    · rw [hNew, hRev', h.diskSig]
      exact h.sig
    · rw [hDisk]
    · rw [hDisk]
    · rw [hDisk]
    · rw [hDisk]
    · rw [hDisk, hNew]
      exact ⟨(h.highest hNil).2, (h.highest hNil).2⟩

namespace Undamaged

/-! ## Calls -/

theorem alloc (h : d.Undamaged) (position : Int) (bytes : Nat)
    (hFit : d.fileHeader.gxdEof + (bytes + d.overhead) < 2 ^ 63) (method : ReclaimMethod) :
    ∃ a d' l, d.alloc (d.fileSize.toNat + 1) position bytes method = some (a, d') ∧ d'.Undamaged ∧
      d'.rev = d.rev ∧ d.object a = none ∧ l.length = bytes ∧
      d'.object = Function.update d.object a (some l) := by
  obtain ⟨blocks, free, hIntact⟩ := h
  obtain ⟨blocks₂, free₂, hNext⟩ := hIntact.heap (c := (position, .alloc bytes method)) hFit
  obtain ⟨a, d', blocks', free', hAlloc, hChanges, hNew, hFree⟩ :=
    hIntact.holds.alloc_eq (Nat.lt_succ_self d.fileSize.toNat) position hFit method
  have hStep : (heapCalls.step (position, .alloc bytes method) d).2 = d' := by
    simp only [heapCalls, hAlloc]
  rw [hStep] at hNext
  have hSizes : d'.overhead = d.overhead ∧ d'.blockHeaderSize = d.blockHeaderSize := by
    simp only [overhead, blockHeaderSize, hChanges.rev, and_self]
  refine ⟨a + d.blockHeaderSize, d', d'.payload (a, .normal (bytes + d.overhead)), hAlloc,
    ⟨_, _, hNext⟩, hChanges.rev, ?_, ?_, ?_⟩
  · rw [hIntact.holds.object_eq_none_iff]
    intro b hb hAt
    refine hFree b.2 ?_
    have hSame : b.1 = a := by omega
    rwa [← hSame]
  · rw [payload_length, hSizes.1]
    exact Nat.add_sub_cancel _ _
  · funext x
    by_cases hx : x = a + d.blockHeaderSize
    · subst hx
      rw [Function.update_self, hChanges.holds.object_eq_some_iff]
      exact ⟨_, hNew, BlockHeader.normal_isFree _, by rw [hSizes.2], rfl⟩
    · rw [Function.update_of_ne hx]
      exact hChanges.object_eq hIntact.holds hx

theorem delete (h : d.Undamaged) (hObject : d.object a = some l) (position : Int) :
    (d.delete position a false).1 = true ∧ (d.delete position a false).2.Undamaged ∧
      (d.delete position a false).2.rev = d.rev ∧
      (d.delete position a false).2.object = Function.update d.object a none := by
  obtain ⟨blocks, free, hIntact⟩ := h
  have hHolds := hIntact.holds
  obtain ⟨b, hb, hUse, rfl, -⟩ := hHolds.object_eq_some_iff.mp hObject
  have hBlock : b.1 + (d.blockHeaderSize : Int) - d.blockHeaderSize = b.1 := Int.add_sub_cancel _ _
  have hMem : b.1 + (d.blockHeaderSize : Int) - d.blockHeaderSize ∈ d.blocks.map Prod.fst := by
    rw [hBlock, hHolds.blocks_eq]
    exact List.mem_map_of_mem hb
  obtain ⟨blocks₂, free₂, hNext⟩ := hIntact.heap
    (c := (position, .delete (b.1 + d.blockHeaderSize))) fun _ _ => hMem
  obtain ⟨blocks', free', hChanges, -, hFreed⟩ := hHolds.delete_eq position
    (b.1 + d.blockHeaderSize) false fun _ _ => ⟨b.2, by rwa [hBlock]⟩
  rw [hBlock] at hChanges hFreed
  have hPos := (hHolds.bounds hb).1
  have hSound := hHolds.sound b hb
  have hTrue : (d.delete position (b.1 + d.blockHeaderSize) false).1 = true := by
    have hRead : d.readBlockHdr position b.1 = some b.2 := by
      rw [readBlockHdr, readPosition_pos position hPos, hHolds.stored b hb, Option.filter_some,
        if_pos hSound.test]
    have hStatus : ¬ b.2.status ≠ gxNormalBlock := not_not.mpr (hSound.status_iff.mpr hUse)
    simp only [Database.delete, hBlock, hRead]
    rw [if_neg hStatus]
    split <;> rfl
  have hRev := hChanges.rev
  refine ⟨hTrue, ⟨_, _, hNext⟩, hRev, ?_⟩
  funext x
  by_cases hx : x = b.1 + d.blockHeaderSize
  · subst hx
    rw [Function.update_self, hChanges.holds.object_eq_none_iff]
    intro c hc hAt
    rw [blockHeaderSize, hRev] at hAt
    refine hFreed hTrue c.2 ?_
    have hSame : c.1 = b.1 := by
      change c.1 + (d.blockHeaderSize : Int) = b.1 + d.blockHeaderSize at hAt
      omega
    rwa [← hSame]
  · rw [Function.update_of_ne hx]
    exact hChanges.object_eq hHolds hx

/-! ## Bytes of an object -/

theorem bounds (h : d.Undamaged) (hObject : d.object a = some l) :
    0 < a ∧ a + l.length ≤ d.fileSize ∧ d.fileSize < 2 ^ 63 := by
  obtain ⟨blocks, free, hIntact⟩ := h
  have hHolds := hIntact.holds
  obtain ⟨b, hb, -, rfl, rfl⟩ := hHolds.object_eq_some_iff.mp hObject
  have hBounds := hHolds.bounds hb
  have hLimit := hHolds.limit
  have hOverhead := (hHolds.sound b hb).overhead
  have hSum := d.overhead_eq
  rw [← hHolds.fileSize] at hLimit
  rw [payload_length]
  omega

theorem get (h : d.Undamaged) (hObject : d.object a = some l) {i k : Nat} (hRoom : i + k ≤ l.length) :
    d.file.get (a + i) k = (l.drop i).take k := by
  obtain ⟨blocks, free, hIntact⟩ := h
  obtain ⟨b, -, -, rfl, rfl⟩ := hIntact.holds.object_eq_some_iff.mp hObject
  rw [payload_length] at hRoom
  obtain ⟨n, hn⟩ : ∃ n, b.2.blockLength - d.overhead = i + (k + n) :=
    ⟨b.2.blockLength - d.overhead - (i + k), by omega⟩
  rw [payload, hn, Bytes.get_add, Bytes.get_add, List.drop_left' Bytes.get_length,
    List.take_left' Bytes.get_length]

theorem writeBytes (h : d.Undamaged) (hObject : d.object a = some l) (i : Nat) (bytes : List UInt8)
    (hRoom : i + bytes.length ≤ l.length) :
    (d.writeBytes (a + i) bytes).Undamaged ∧
      (d.writeBytes (a + i) bytes).object = Function.update d.object a
        (some (l.take i ++ bytes ++ l.drop (i + bytes.length))) := by
  obtain ⟨blocks, free, hIntact⟩ := h
  have hHolds := hIntact.holds
  obtain ⟨b, hb, hUse, rfl, rfl⟩ := hHolds.object_eq_some_iff.mp hObject
  have hSum := d.overhead_eq
  have hHeader := d.rev.sizeOfBlockHeader_le
  have hLength := (hHolds.sound b hb).overhead
  rw [payload_length] at hRoom
  change sizeOfBlockHeader ≤ d.blockHeaderSize at hHeader
  have hPlace : b.1 + sizeOfBlockHeader ≤ b.1 + d.blockHeaderSize + i ∧
      b.1 + d.blockHeaderSize + i + bytes.length ≤ b.1 + b.2.blockLength := by omega
  have hStatus := (hHolds.sound b hb).status_iff.mpr hUse
  obtain ⟨blocks', free', hNext⟩ := hIntact.step
    (c := (0, .write (b.1 + d.blockHeaderSize + i) bytes))
    (.inl ⟨b, by rwa [hHolds.blocks_eq], hStatus, hPlace⟩)
  obtain ⟨hHolds', -⟩ := hHolds.writeBytes (.inl ⟨b, hb, hPlace⟩)
  refine ⟨⟨_, _, hNext⟩, ?_⟩
  have hOther (c) (hc : c ∈ blocks) (hne : c.1 ≠ b.1) :
      (d.writeBytes (b.1 + d.blockHeaderSize + i) bytes).payload c = d.payload c := by
    have hApart := hHolds.tiles.apart_of_ne hb hc (Ne.symm hne)
    refine payload_congr rfl fun x hx hx' => Bytes.put_outside ?_
    omega
  have hSelf : (d.writeBytes (b.1 + d.blockHeaderSize + i) bytes).payload b =
      (d.payload b).take i ++ bytes ++ (d.payload b).drop (i + bytes.length) := by
    have hIndex : (b.1 + (d.blockHeaderSize : Int) + i - (b.1 + d.blockHeaderSize)).toNat = i := by
      omega
    have hPut := Bytes.get_put (m := d.file) (a := b.1 + d.blockHeaderSize)
      (b := b.1 + d.blockHeaderSize + i) (n := b.2.blockLength - d.overhead) (l := bytes) (by omega)
      (by omega)
    rw [hIndex] at hPut
    exact hPut
  funext x
  by_cases hx : x = b.1 + d.blockHeaderSize
  · subst hx
    rw [Function.update_self, hHolds'.object_eq_some_iff]
    exact ⟨b, hb, hUse, rfl, hSelf⟩
  · rw [Function.update_of_ne hx]
    refine Option.ext fun l => ?_
    rw [hHolds'.object_eq_some_iff, hHolds.object_eq_some_iff]
    constructor
    · rintro ⟨c, hc, hUse, rfl, rfl⟩
      exact ⟨c, hc, hUse, rfl, (hOther c hc fun hSame => hx (congrArg (· + _) hSame)).symm⟩
    · rintro ⟨c, hc, hUse, rfl, rfl⟩
      exact ⟨c, hc, hUse, rfl, hOther c hc fun hSame => hx (congrArg (· + _) hSame)⟩

theorem readBytes (h : d.Undamaged) (hObject : d.object a = some l) {i k : Nat}
    (hRoom : i + k ≤ l.length) :
    d.readBytes (a + i) k = some ⟨(l.drop i).take k, by rw [List.length_take, List.length_drop]; omega⟩ := by
  have hBounds := h.bounds hObject
  exact readBytes_eq_some_iff.mpr ⟨.inr (by omega), h.get hObject hRoom⟩

theorem writeBuffers (h : d.Undamaged) (hObject : d.object a = some l) (i : Nat)
    (ls : List (List UInt8)) (hRoom : i + ls.flatten.length ≤ l.length) :
    (d.writeBuffers (a + i) ls).Undamaged ∧
      (d.writeBuffers (a + i) ls).object = Function.update d.object a
        (some (l.take i ++ ls.flatten ++ l.drop (i + ls.flatten.length))) := by
  induction ls generalizing d l i with
  | nil =>
    refine ⟨h, ?_⟩
    rw [List.flatten_nil, List.append_nil, List.length_nil, Nat.add_zero, List.take_append_drop,
      ← hObject, Function.update_eq_self]
    rfl
  | cons m ls ih =>
    rw [List.flatten_cons, List.length_append] at hRoom
    obtain ⟨hNext, hNew⟩ := h.writeBytes hObject i m (by omega)
    have hObject' : (d.writeBytes (a + i) m).object a =
        some (l.take i ++ m ++ l.drop (i + m.length)) := by
      rw [hNew, Function.update_self]
    have hTake : (l.take i).length = i := by
      rw [List.length_take]
      omega
    have hLength : (l.take i ++ m ++ l.drop (i + m.length)).length = l.length := by
      rw [List.length_append, List.length_append, hTake, List.length_drop]
      omega
    obtain ⟨hLast, hBytes⟩ := ih hNext hObject' (i + m.length) (by omega)
    have hFront : (l.take i ++ m ++ l.drop (i + m.length)).take (i + m.length) = l.take i ++ m :=
      List.take_left' (by rw [List.length_append, hTake])
    have hBack : (l.take i ++ m ++ l.drop (i + m.length)).drop (i + m.length + ls.flatten.length) =
        l.drop (i + (m ++ ls.flatten).length) := by
      rw [← List.drop_drop, List.drop_left' (by rw [List.length_append, hTake]), List.drop_drop,
        List.length_append, Nat.add_assoc]
    rw [Database.writeBuffers, show a + (i : Int) + m.length = a + (i + m.length : Nat) by omega]
    refine ⟨hLast, ?_⟩
    rw [hBytes, hNew, Function.update_idem, hFront, hBack, List.flatten_cons]
    simp only [List.append_assoc]

/-! ## The header -/

theorem getEOF (h : d.Undamaged) : d.getEOF = (d.fileSize, d) := by
  obtain ⟨blocks, free, hIntact⟩ := h
  have hHeader := hIntact.holds.fileHeaderSize_le
  have hLe := d.rev.sizeOfFileHeader_le
  have hNot : ¬ d.fileSize < sizeOfFileHeader := by omega
  have hSame : (FileHeader.ofWords (d.file.readWords 0 7)).gxdEof = d.fileHeader.gxdEof := hIntact.diskEof
  simp only [Database.getEOF, if_neg hNot, hSame]
  rw [if_pos trivial, hIntact.holds.fileSize]

theorem testFileHeader (h : d.Undamaged) :
    d.testFileHeader.Undamaged ∧ d.testFileHeader.rev = d.rev ∧ d.testFileHeader.file = d.file ∧
      d.testFileHeader.fileSize = d.fileSize ∧ d.testFileHeader.object = d.object := by
  obtain ⟨blocks, free, hIntact⟩ := h
  obtain ⟨hTested, hRev, hFile, hFileSize, -⟩ := hIntact.test
  refine ⟨⟨blocks, free, hTested⟩, hRev, hFile, hFileSize, ?_⟩
  funext a
  refine Option.ext fun l => ?_
  rw [hTested.holds.object_eq_some_iff, hIntact.holds.object_eq_some_iff, blockHeaderSize, hRev,
    ← blockHeaderSize]
  have hPayload (b : Int × BlockHeader) : d.testFileHeader.payload b = d.payload b :=
    payload_congr hRev fun x _ _ => congrFun hFile x
  simp only [hPayload]

end Undamaged

end DataReel.Database
