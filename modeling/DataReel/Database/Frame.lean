import DataReel.Database.Alloc

/-! # What writes leave alone

Every write of the engine goes to the file headers or to a block header. The
rest of the file, and the other block headers in it, stay as they are.
-/

namespace DataReel.Database

variable {d d' d'' : Database} {a b x : Int} {hdr : BlockHeader} {l : List Nat}
  {prev : Option (Int × BlockHeader)} {places places' : List (Int × Nat)}

/-! ## The object -/

section Fields

variable (d a l hdr prev) (bytes status : Nat)

@[simp] theorem writeWords_fileHeader : (d.writeWords a l).fileHeader = d.fileHeader := rfl

@[simp] theorem writeWords_fileStats : (d.writeWords a l).fileStats = d.fileStats := rfl

@[simp] theorem writeWords_rev : (d.writeWords a l).rev = d.rev := rfl

@[simp] theorem writeBlockHdr_fileHeader : (d.writeBlockHdr hdr a).fileHeader = d.fileHeader := rfl

@[simp] theorem writeBlockHdr_fileStats : (d.writeBlockHdr hdr a).fileStats = d.fileStats := rfl

@[simp] theorem writeBlockHdr_rev : (d.writeBlockHdr hdr a).rev = d.rev := rfl

@[simp] theorem writeFileStatsHdr_fileHeader : d.writeFileStatsHdr.fileHeader = d.fileHeader := by
  rw [writeFileStatsHdr]
  split <;> rfl

@[simp] theorem writeFileStatsHdr_fileStats : d.writeFileStatsHdr.fileStats = d.fileStats := by
  rw [writeFileStatsHdr]
  split <;> rfl

@[simp] theorem writeFileStatsHdr_rev : d.writeFileStatsHdr.rev = d.rev := by
  rw [writeFileStatsHdr]
  split <;> rfl

@[simp] theorem writeFileHdr_fileHeader : d.writeFileHdr.fileHeader = d.fileHeader := by
  simp [writeFileHdr]

@[simp] theorem writeFileHdr_fileStats : d.writeFileHdr.fileStats = d.fileStats := by
  simp [writeFileHdr]

@[simp] theorem writeFileHdr_rev : d.writeFileHdr.rev = d.rev := by
  simp [writeFileHdr]

@[simp] theorem setFsFptr_fileStats : (d.setFsFptr a).fileStats = d.fileStats := rfl

@[simp] theorem setFsFptr_rev : (d.setFsFptr a).rev = d.rev := rfl

@[simp] theorem setFsFptr_gxdFsFptr : (d.setFsFptr a).fileHeader.gxdFsFptr = a := rfl

@[simp] theorem setFsFptr_gxdHsFptr :
    (d.setFsFptr a).fileHeader.gxdHsFptr = d.fileHeader.gxdHsFptr := rfl

@[simp] theorem setFsFptr_gxdEof : (d.setFsFptr a).fileHeader.gxdEof = d.fileHeader.gxdEof := rfl

@[simp] theorem setFsFptr_gxdSig : (d.setFsFptr a).fileHeader.gxdSig = d.fileHeader.gxdSig := rfl

@[simp] theorem uncount_fileHeader : (d.uncount status).fileHeader = d.fileHeader := by
  simp only [uncount]
  split
  · rfl
  · split <;> rfl

@[simp] theorem uncount_rev : (d.uncount status).rev = d.rev := by
  simp only [uncount]
  split
  · rfl
  · split <;> rfl

@[simp] theorem relink_fileStats : (d.relink prev a).fileStats = d.fileStats := by
  cases prev <;> simp [relink]

@[simp] theorem relink_rev : (d.relink prev a).rev = d.rev := by
  cases prev <;> simp [relink]

@[simp] theorem relink_gxdHsFptr :
    (d.relink prev a).fileHeader.gxdHsFptr = d.fileHeader.gxdHsFptr := by
  cases prev <;> simp [relink]

@[simp] theorem relink_gxdEof : (d.relink prev a).fileHeader.gxdEof = d.fileHeader.gxdEof := by
  cases prev <;> simp [relink]

@[simp] theorem relink_gxdSig : (d.relink prev a).fileHeader.gxdSig = d.fileHeader.gxdSig := by
  cases prev <;> simp [relink]

theorem relink_gxdFsFptr : (d.relink prev a).fileHeader.gxdFsFptr =
    match prev with
    | none => a
    | some _ => d.fileHeader.gxdFsFptr := by
  cases prev <;> simp [relink]

@[simp] theorem extend_rev : (d.extend bytes).rev = d.rev := rfl

@[simp] theorem extend_fileSize :
    (d.extend bytes).fileSize = max d.fileSize (d.fileHeader.gxdEof + bytes) := rfl

@[simp] theorem extend_gxdFsFptr :
    (d.extend bytes).fileHeader.gxdFsFptr = d.fileHeader.gxdFsFptr := rfl

@[simp] theorem extend_gxdHsFptr :
    (d.extend bytes).fileHeader.gxdHsFptr = d.fileHeader.gxdHsFptr := rfl

@[simp] theorem extend_gxdEof :
    (d.extend bytes).fileHeader.gxdEof = d.fileHeader.gxdEof + bytes := rfl

@[simp] theorem extend_gxdSig :
    (d.extend bytes).fileHeader.gxdSig = d.fileHeader.gxdSig := rfl

theorem extend_file (hx : x < d.fileHeader.gxdEof) : (d.extend bytes).file x = d.file x :=
  Bytes.write_outside (.inl hx)

@[simp] theorem mark_fileStats : (d.mark bytes a).fileStats = d.fileStats := by
  simp only [mark, writeFileHdr_fileStats]
  split <;> split <;> rfl

@[simp] theorem mark_rev : (d.mark bytes a).rev = d.rev := by
  simp only [mark, writeFileHdr_rev]
  split <;> split <;> rfl

@[simp] theorem mark_gxdFsFptr :
    (d.mark bytes a).fileHeader.gxdFsFptr = d.fileHeader.gxdFsFptr := by
  simp only [mark, writeFileHdr_fileHeader]
  split <;> split <;> rfl

@[simp] theorem mark_gxdHsFptr :
    (d.mark bytes a).fileHeader.gxdHsFptr = d.fileHeader.gxdHsFptr := by
  simp only [mark, writeFileHdr_fileHeader]
  split <;> split <;> rfl

@[simp] theorem mark_gxdEof : (d.mark bytes a).fileHeader.gxdEof = d.fileHeader.gxdEof := by
  simp only [mark, writeFileHdr_fileHeader]
  split <;> split <;> rfl

@[simp] theorem mark_gxdSig :
    (d.mark bytes a).fileHeader.gxdSig = d.fileHeader.gxdSig := by
  simp only [mark, writeFileHdr_fileHeader]
  split <;> split <;> rfl

end Fields

/-! ## The file -/

/-- From one object to the other only the file headers and some places behind them are written. -/
structure Touches (places : List (Int × Nat)) (d d' : Database) : Prop where
  file : ∀ x, (d.rev.fileHeaderSize : Int) ≤ x →
    (∀ p ∈ places, x < p.1 ∨ p.1 + p.2 ≤ x) → d'.file x = d.file x
  fileSize : d'.fileSize = d.fileSize
  rev : d'.rev = d.rev

theorem readAt_congr (hSize : d'.fileSize = d.fileSize)
    (hFile : ∀ x, a ≤ x → x < a + sizeOfBlockHeader → d'.file x = d.file x) :
    d'.readAt a = d.readAt a := by
  rw [readAt, readAt, hSize, Bytes.readWords_congr fun x hx hx' => hFile x hx ?_]
  rw [sizeOfBlockHeader]
  omega

theorem readAt_of_file (hRead : d.readAt a = some hdr) (hSize : d.fileSize ≤ d'.fileSize)
    (hFile : ∀ x, a ≤ x → x < a + sizeOfBlockHeader → d'.file x = d.file x) :
    d'.readAt a = some hdr := by
  rw [readAt] at hRead ⊢
  split at hRead
  · rename_i hPlace
    rw [if_pos (by omega), ← hRead, Bytes.readWords_congr fun x hx hx' => hFile x hx ?_]
    rw [sizeOfBlockHeader]
    omega
  · cases hRead

theorem readAt_writeBlockHdr (hFits : hdr.Fits) (hLow : 0 ≤ a) :
    (d.writeBlockHdr hdr a).readAt a = some hdr := by
  have hWords : ((d.writeBlockHdr hdr a).file).readWords a 4 = hdr.words :=
    Bytes.readWords_writeWords_self (BlockHeader.words_lt hFits)
  rw [readAt, if_pos, hWords, BlockHeader.ofWords_words hFits]
  exact ⟨hLow, Int.le_max_right _ _⟩

namespace Touches

theorem refl (d : Database) : Touches [] d d := ⟨fun _ _ _ => rfl, rfl, rfl⟩

theorem trans (h : Touches places d d') (h' : Touches places' d' d'') :
    Touches (places ++ places') d d'' := by
  refine ⟨fun x hx hApart => ?_, h'.fileSize.trans h.fileSize, h'.rev.trans h.rev⟩
  rw [h'.file x (by rwa [h.rev]) fun p hp => hApart p (List.mem_append_right _ hp),
    h.file x hx fun p hp => hApart p (List.mem_append_left _ hp)]

theorem readAt (h : Touches places d d') (hBehind : (d.rev.fileHeaderSize : Int) ≤ a)
    (hApart : ∀ p ∈ places, a + sizeOfBlockHeader ≤ p.1 ∨ p.1 + p.2 ≤ a) :
    d'.readAt a = d.readAt a := by
  refine readAt_congr h.fileSize fun x hx hx' => h.file x (by omega) fun p hp => ?_
  have := hApart p hp
  omega

theorem writeBlockHdr (hdr : BlockHeader) (hSize : a + sizeOfBlockHeader ≤ d.fileSize) :
    Touches [(a, sizeOfBlockHeader)] d (d.writeBlockHdr hdr a) := by
  refine ⟨fun x hx hApart => Bytes.writeWords_outside ?_, max_eq_left hSize, rfl⟩
  exact hApart _ List.mem_cons_self

theorem writeFileStatsHdr (hSize : (d.rev.fileHeaderSize : Int) ≤ d.fileSize) :
    Touches [] d d.writeFileStatsHdr := by
  rw [Database.writeFileStatsHdr]
  split
  · rename_i hStats
    have hPlace : fileStatsAddress + 8 * (d.fileStats.words.length : Int) =
        d.rev.fileHeaderSize := by
      cases hRev : d.rev <;> rw [hRev] at hStats <;> first | rfl | cases hStats
    refine ⟨fun x hx _ => Bytes.writeWords_outside (.inr (hPlace.trans_le hx)), ?_, rfl⟩
    exact max_eq_left (hPlace.trans_le hSize)
  · exact refl d

theorem writeFileHdr (hSize : (d.rev.fileHeaderSize : Int) ≤ d.fileSize) :
    Touches [] d d.writeFileHdr := by
  have hPlace : (0 : Int) + 8 * (d.fileHeader.words.length : Int) ≤ d.rev.fileHeaderSize := by
    change (0 : Int) + 8 * 7 ≤ _
    cases d.rev <;> decide
  have hHeader : Touches [] d (d.writeWords 0 d.fileHeader.words) :=
    ⟨fun x hx _ => Bytes.writeWords_outside (.inr (hPlace.trans hx)),
      max_eq_left (hPlace.trans hSize), rfl⟩
  exact hHeader.trans (writeFileStatsHdr (by rw [hHeader.fileSize]; exact hSize))

theorem of_file_eq (hFile : d'.file = d.file) (hSize : d'.fileSize = d.fileSize)
    (hRev : d'.rev = d.rev) : Touches [] d d' := ⟨fun _ _ _ => congrFun hFile _, hSize, hRev⟩

theorem setFsFptr (d : Database) (a : Int) : Touches [] d (d.setFsFptr a) := of_file_eq rfl rfl rfl

theorem uncount (d : Database) (status : Nat) : Touches [] d (d.uncount status) := by
  simp only [Database.uncount]
  split
  · exact of_file_eq rfl rfl rfl
  · split
    · exact of_file_eq rfl rfl rfl
    · exact refl d

theorem relink (hSize : (d.rev.fileHeaderSize : Int) ≤ d.fileSize)
    (hPrev : ∀ p, prev = some p → p.1 + sizeOfBlockHeader ≤ d.fileSize) :
    Touches (prev.toList.map fun p => (p.1, sizeOfBlockHeader)) d (d.relink prev a) := by
  cases prev with
  | none => exact (setFsFptr d a).trans (writeFileHdr hSize)
  | some p =>
    have hWrite := writeBlockHdr { p.2 with blockNdFptr := a } (hPrev p rfl)
    exact hWrite.trans (writeFileStatsHdr (by rw [hWrite.fileSize]; exact hSize))

theorem mono (h : Touches places d d') (hPlaces : ∀ p ∈ places, ∃ q ∈ places',
    q.1 ≤ p.1 ∧ p.1 + p.2 ≤ q.1 + q.2) : Touches places' d d' := by
  refine ⟨fun x hx hApart => h.file x hx fun p hp => ?_, h.fileSize, h.rev⟩
  obtain ⟨q, hq, hLow, hHigh⟩ := hPlaces p hp
  have hOut := hApart q hq
  omega

theorem recordLock (hBlock : a + d.rev.blockHeaderSize ≤ d.fileSize) :
    Touches [(a + sizeOfBlockHeader, d.rev.blockHeaderSize - sizeOfBlockHeader)] d
      (if d.rev.hasRecordLock then d.writeWords (a + sizeOfBlockHeader) [0, 0, 0] else d) := by
  split
  · rename_i hLock
    have hSize : d.rev.blockHeaderSize = sizeOfBlockHeader + 24 := by
      cases hRev : d.rev <;> rw [hRev] at hLock <;> first | rfl | cases hLock
    rw [hSize] at hBlock ⊢
    refine ⟨fun x hx hApart => Bytes.writeWords_outside ?_, max_eq_left ?_, rfl⟩
    · have hOut := hApart _ List.mem_cons_self
      simp only [List.length_cons, List.length_nil]
      omega
    · simp only [List.length_cons, List.length_nil]
      omega
  · exact (refl d).mono nofun

theorem mark_rest {bytes : Nat} (hSize : (d.rev.fileHeaderSize : Int) ≤ d.fileSize)
    (hBlock : a + d.rev.blockHeaderSize ≤ d.fileSize) :
    Touches [(a + sizeOfBlockHeader, d.rev.blockHeaderSize - sizeOfBlockHeader)]
      (d.writeBlockHdr ⟨gxCheckWord, bytes, gxNormalBlock, 0⟩ a) (d.mark bytes a) := by
  have hHeader : (d.writeBlockHdr ⟨gxCheckWord, bytes, gxNormalBlock, 0⟩ a).fileSize = d.fileSize :=
    (writeBlockHdr _ (by have := d.rev.sizeOfBlockHeader_le; omega)).fileSize
  have hHighest (e : Database) : Touches [] e (if e.fileHeader.gxdHbFptr < a then
      { e with fileHeader := { e.fileHeader with gxdHbFptr := a } } else e) := by
    split
    · exact of_file_eq rfl rfl rfl
    · exact refl e
  have hLock := recordLock (d := d.writeBlockHdr ⟨gxCheckWord, bytes, gxNormalBlock, 0⟩ a)
    (by rw [hHeader]; exact hBlock)
  have hBoth := hLock.trans (hHighest _)
  have hAll := hBoth.trans (writeFileHdr (by rw [hBoth.rev, hBoth.fileSize, hHeader]; exact hSize))
  refine hAll.mono fun p hp => ⟨p, ?_, Int.le_refl _, Int.le_refl _⟩
  simpa using hp

theorem mark (a : Int) (bytes : Nat) (hSize : (d.rev.fileHeaderSize : Int) ≤ d.fileSize)
    (hBlock : a + d.rev.blockHeaderSize ≤ d.fileSize) :
    Touches [(a, d.rev.blockHeaderSize)] d (d.mark bytes a) := by
  have hLe := d.rev.sizeOfBlockHeader_le
  have hHeader := writeBlockHdr (d := d) (a := a) ⟨gxCheckWord, bytes, gxNormalBlock, 0⟩ (by omega)
  refine (hHeader.trans (mark_rest hSize hBlock)).mono fun p hp => ⟨_, List.mem_cons_self, ?_⟩
  simp only [List.cons_append, List.nil_append, List.mem_cons, List.not_mem_nil, or_false] at hp
  rcases hp with rfl | rfl
  · constructor
    · exact Int.le_refl a
    · dsimp only
      omega
  · dsimp only
    omega

end Touches

theorem readAt_mark {bytes : Nat} (hBytes : bytes < 2 ^ 64)
    (hBehind : (d.rev.fileHeaderSize : Int) ≤ a) (hBlock : a + d.rev.blockHeaderSize ≤ d.fileSize) :
    (d.mark bytes a).readAt a = some ⟨gxCheckWord, bytes, gxNormalBlock, 0⟩ := by
  have hPos := d.rev.fileHeaderSize_pos
  have hLe := d.rev.blockHeaderSize_pos
  rw [(Touches.mark_rest (by omega) hBlock).readAt hBehind ?_, readAt_writeBlockHdr ?_ (by omega)]
  · refine ⟨?_, hBytes, ?_, ?_⟩ <;> dsimp only <;> decide
  · intro p hp
    obtain rfl := List.mem_singleton.mp hp
    exact .inl (Int.le_refl _)

/-! ## The header on disk -/

theorem readOver_eq {address : Int} {old : List Nat}
    (hSize : address + 8 * old.length ≤ d.fileSize) :
    d.readOver address old = d.file.readWords address old.length :=
  Bytes.readWords_congr fun x _ hx => if_pos (by omega)

/-- The file header that the file has. -/
def diskHeader (d : Database) : FileHeader := FileHeader.ofWords (d.file.readWords 0 7)

theorem diskHeader_congr (hFile : ∀ x : Int, 0 ≤ x → x < sizeOfFileHeader → d'.file x = d.file x) :
    d'.diskHeader = d.diskHeader := by
  rw [diskHeader, diskHeader, Bytes.readWords_congr fun x hx hx' => hFile x hx ?_]
  rw [sizeOfFileHeader]
  omega

theorem diskHeader_writeBlockHdr (hBehind : (sizeOfFileHeader : Int) ≤ a) :
    (d.writeBlockHdr hdr a).diskHeader = d.diskHeader :=
  diskHeader_congr fun _ _ hx => Bytes.writeWords_outside (.inl (by omega))

theorem diskHeader_writeFileHdr (hWords : ∀ w ∈ d.fileHeader.words, w < 2 ^ 64) :
    d.writeFileHdr.diskHeader = FileHeader.ofWords d.fileHeader.words := by
  have hHeader : (d.writeWords 0 d.fileHeader.words).diskHeader =
      FileHeader.ofWords d.fileHeader.words :=
    congrArg FileHeader.ofWords (Bytes.readWords_writeWords_self hWords)
  rw [writeFileHdr, writeFileStatsHdr]
  split
  · rw [← hHeader]
    refine diskHeader_congr fun x _ hx => Bytes.writeWords_outside (.inl ?_)
    simp only [fileStatsAddress, sizeOfFileHeader, sizeOfFileLockHeader] at hx ⊢
    omega
  · exact hHeader

end DataReel.Database
