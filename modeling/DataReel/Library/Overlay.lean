import Mathlib.Data.List.GetD
import Mathlib.Data.Set.Insert

/-! # Files under pieces that are not written yet

A file is a row of bytes. A write behind its end fills the gap with zeros, here with the default value.
An overlay of pieces over a file is the file that writing them would make.
-/

namespace DataReel

/-- A row from a place on covers the places of its elements. -/
def Covers (a n j : Nat) : Prop := a ≤ j ∧ j < a + n

instance (a n j : Nat) : Decidable (Covers a n j) := inferInstanceAs (Decidable (_ ∧ _))

namespace FileImage

variable {α : Type} [Inhabited α]

/-- As many bytes as are asked for, or none. -/
def readAt (file : List α) (a n : Nat) : Option (List α) :=
  if ((file.drop a).take n).length = n then some ((file.drop a).take n) else none

def writeAt (file : List α) (a : Nat) (l : List α) : List α :=
  if l.isEmpty then file
  else (file ++ List.replicate (a - file.length) default).take a ++ l ++ file.drop (a + l.length)

def byteAt (file : List α) (j : Nat) : α := file.getD j default

variable {file whole l d : List α} {a b j n : Nat}

theorem ext_byteAt (hLength : file.length = whole.length) (h : ∀ j, byteAt file j = byteAt whole j) :
    file = whole := by
  apply List.ext_getElem hLength
  intro j hj hj'
  have hAt := h j
  rwa [byteAt, byteAt, List.getD_eq_getElem _ _ hj, List.getD_eq_getElem _ _ hj'] at hAt

theorem writeAt_nil : writeAt file a [] = file := rfl

theorem length_writeAt (hl : l ≠ []) : (writeAt file a l).length = max file.length (a + l.length) := by
  rw [writeAt, if_neg (by simpa using hl)]
  simp only [List.length_append, List.length_take, List.length_replicate, List.length_drop]
  omega

theorem length_le_writeAt : file.length ≤ (writeAt file a l).length := by
  by_cases hl : l = []
  · rw [hl, writeAt_nil]
  · rw [length_writeAt hl]
    exact Nat.le_max_left _ _

/-- The bytes written are where they were written, and the others are as they were. -/
theorem byteAt_writeAt : byteAt (writeAt file a l) j =
    if Covers a l.length j then byteAt l (j - a) else byteAt file j := by
  by_cases hl : l = []
  · rw [hl, writeAt_nil, if_neg (by simp [Covers])]
  · have hFront : ((file ++ List.replicate (a - file.length) default).take a).length = a := by
      simp only [List.length_take, List.length_append, List.length_replicate]
      omega
    rw [writeAt, if_neg (by simpa using hl), List.append_assoc]
    by_cases hBefore : j < a
    · rw [if_neg (by unfold Covers; omega), byteAt, List.getD_append _ _ _ _ (by omega)]
      rw [byteAt, List.getD_eq_getElem?_getD, List.getD_eq_getElem?_getD, List.getElem?_take_of_lt hBefore]
      by_cases hInside : j < file.length
      · rw [List.getElem?_append_left hInside]
      · rw [List.getElem?_append_right (by omega), List.getElem?_eq_none (l := file) (by omega),
          List.getElem?_replicate, if_pos (by omega)]
        rfl
    · rw [byteAt, List.getD_append_right _ _ _ _ (by omega), hFront]
      by_cases hInside : j < a + l.length
      · rw [if_pos ⟨by omega, hInside⟩, List.getD_append _ _ _ _ (by omega), byteAt]
      · have hPlace : a + l.length + (j - a - l.length) = j := by omega
        rw [if_neg (by unfold Covers; omega), List.getD_append_right _ _ _ _ (by omega), byteAt,
          List.getD_eq_getElem?_getD, List.getD_eq_getElem?_getD, List.getElem?_drop, hPlace]

theorem readAt_eq_some : readAt file a n = some l ↔
    l.length = n ∧ (n = 0 ∨ a + n ≤ file.length) ∧ ∀ i < n, byteAt l i = byteAt file (a + i) := by
  have hLength : ((file.drop a).take n).length = n ↔ n = 0 ∨ a + n ≤ file.length := by
    rw [List.length_take, List.length_drop]
    omega
  have hByte (i : Nat) (hi : i < n) : byteAt ((file.drop a).take n) i = byteAt file (a + i) := by
    rw [byteAt, byteAt, List.getD_eq_getElem?_getD, List.getD_eq_getElem?_getD, List.getElem?_take_of_lt hi,
      List.getElem?_drop]
  unfold readAt
  constructor
  · intro h
    split at h
    · next hFits =>
      obtain rfl := Option.some.inj h
      exact ⟨hFits, hLength.mp hFits, hByte⟩
    · cases h
  · rintro ⟨hl, hFits, hBytes⟩
    have hTaken := hLength.mpr hFits
    rw [if_pos hTaken]
    congr 1
    apply List.ext_getElem (hTaken.trans hl.symm)
    intro i hi hi'
    have hAt := (hByte i (by omega)).trans (hBytes i (by omega)).symm
    rwa [byteAt, byteAt, List.getD_eq_getElem _ _ hi, List.getD_eq_getElem _ _ hi'] at hAt

/-- A write elsewhere does not change what is read. -/
theorem readAt_writeAt_apart (h : readAt file b n = some d)
    (hApart : ∀ j, Covers b n j → ¬ Covers a l.length j) : readAt (writeAt file a l) b n = some d := by
  obtain ⟨hd, hFits, hBytes⟩ := readAt_eq_some.mp h
  apply readAt_eq_some.mpr
  refine ⟨hd, hFits.imp_right fun hFits => hFits.trans length_le_writeAt, ?_⟩
  intro i hi
  rw [byteAt_writeAt, if_neg (hApart (b + i) ⟨by omega, by omega⟩), hBytes i hi]

/-- A beginning of what is read. -/
theorem readAt_take {k : Nat} (h : readAt file a n = some d) (hk : k ≤ n) :
    readAt file a k = some (d.take k) := by
  obtain ⟨hd, hFits, hBytes⟩ := readAt_eq_some.mp h
  apply readAt_eq_some.mpr
  refine ⟨by rw [List.length_take]; omega, by omega, ?_⟩
  intro i hi
  rw [byteAt, List.getD_eq_getElem?_getD, List.getElem?_take_of_lt hi, ← List.getD_eq_getElem?_getD, ← byteAt,
    hBytes i (by omega)]

theorem readAt_writeAt_self : readAt (writeAt file a l) a l.length = some l := by
  apply readAt_eq_some.mpr
  refine ⟨rfl, ?_, ?_⟩
  · by_cases hl : l = []
    · exact Or.inl (by rw [hl]; rfl)
    · right
      rw [length_writeAt hl]
      exact Nat.le_max_right _ _
  · intro i hi
    have hPlace : a + i - a = i := by omega
    rw [byteAt_writeAt, if_pos ⟨by omega, by omega⟩, hPlace]

/-! ## Pieces over a file -/

/-- The file is `whole` once the pieces are written. -/
structure Overlay (file : List α) (pieces : Set (Nat × List α)) (whole : List α) : Prop where
  inside : ∀ p ∈ pieces, ∀ j, Covers p.1 p.2.length j → byteAt whole j = byteAt p.2 (j - p.1)
  outside : ∀ j, (∀ p ∈ pieces, ¬ Covers p.1 p.2.length j) → byteAt whole j = byteAt file j
  longer : file.length ≤ whole.length
  fits : ∀ p ∈ pieces, p.2 ≠ [] → p.1 + p.2.length ≤ whole.length
  ends : whole.length = file.length ∨ ∃ p ∈ pieces, p.2 ≠ [] ∧ p.1 + p.2.length = whole.length

variable {pieces pieces' : Set (Nat × List α)}

theorem Overlay.refl (file : List α) : Overlay file ∅ file :=
  ⟨nofun, fun _ _ => rfl, le_rfl, nofun, Or.inl rfl⟩

theorem Overlay.eq (h : Overlay file ∅ whole) : file = whole := by
  apply ext_byteAt
  · rcases h.ends with hEnd | ⟨p, hp, -⟩
    · exact hEnd.symm
    · exact absurd hp (Set.notMem_empty p)
  · intro j
    exact (h.outside j nofun).symm

/-- A piece is written. -/
theorem Overlay.flush (h : Overlay file pieces whole) (hp : (a, l) ∈ pieces) :
    Overlay (writeAt file a l) (pieces \ {(a, l)}) whole := by
  constructor
  · intro p hp j hj
    exact h.inside p hp.1 j hj
  · intro j hj
    rw [byteAt_writeAt]
    split
    · next hCovers => exact h.inside _ hp j hCovers
    · next hNot =>
      apply h.outside j
      intro p hp hCovers
      apply hj p _ hCovers
      refine ⟨hp, ?_⟩
      rintro rfl
      exact hNot hCovers
  · by_cases hl : l = []
    · rw [hl, writeAt_nil]
      exact h.longer
    · rw [length_writeAt hl]
      exact max_le h.longer (h.fits _ hp hl)
  · intro p hp
    exact h.fits p hp.1
  · by_cases hl : l = []
    · rcases h.ends with hEnd | ⟨p, hp, hNe, hEnd⟩
      · exact Or.inl (by rw [hl, writeAt_nil, hEnd])
      · refine Or.inr ⟨p, ⟨hp, ?_⟩, hNe, hEnd⟩
        rintro rfl
        exact hNe hl
    · have hEnd := h.fits _ hp hl
      have hLonger := h.longer
      rw [length_writeAt hl]
      rcases h.ends with hSame | ⟨p, hq, hNe, hLast⟩
      · left
        dsimp only at hEnd
        omega
      · by_cases hEq : p = (a, l)
        · left
          rw [hEq] at hLast
          dsimp only at hLast
          omega
        · exact Or.inr ⟨p, ⟨hq, hEq⟩, hNe, hLast⟩

/-- A piece is added, in the place of one that it covers. -/
theorem Overlay.write (h : Overlay file pieces whole) (hNew : (a, l) ∈ pieces')
    (hOthers : ∀ p ∈ pieces', p = (a, l) ∨
      p ∈ pieces ∧ ∀ j, Covers p.1 p.2.length j → ¬ Covers a l.length j)
    (hKept : ∀ p ∈ pieces, p ∈ pieces' ∨ p.1 = a ∧ p.2.length ≤ l.length) :
    Overlay file pieces' (writeAt whole a l) := by
  constructor
  · intro p hp j hj
    rw [byteAt_writeAt]
    rcases hOthers p hp with rfl | ⟨hOld, hApart⟩
    · rw [if_pos hj]
    · rw [if_neg (hApart j hj), h.inside p hOld j hj]
  · intro j hj
    rw [byteAt_writeAt, if_neg (hj _ hNew)]
    apply h.outside j
    intro p hp hCovers
    rcases hKept p hp with hp | ⟨hAt, hShort⟩
    · exact hj p hp hCovers
    · apply hj _ hNew
      unfold Covers at hCovers ⊢
      dsimp only
      omega
  · exact h.longer.trans length_le_writeAt
  · intro p hp hNe
    rcases hOthers p hp with rfl | ⟨hOld, -⟩
    · rw [length_writeAt hNe]
      exact Nat.le_max_right _ _
    · exact (h.fits p hOld hNe).trans length_le_writeAt
  · by_cases hl : l = []
    · rw [hl, writeAt_nil]
      rcases h.ends with hEnd | ⟨p, hp, hNe, hEnd⟩
      · exact Or.inl hEnd
      · rcases hKept p hp with hp | ⟨-, hShort⟩
        · exact Or.inr ⟨p, hp, hNe, hEnd⟩
        · rw [hl] at hShort
          exact absurd (List.length_eq_zero_iff.mp (Nat.le_zero.mp hShort)) hNe
    · rw [length_writeAt hl]
      by_cases hLast : whole.length ≤ a + l.length
      · exact Or.inr ⟨_, hNew, hl, by dsimp only; omega⟩
      · rcases h.ends with hEnd | ⟨p, hp, hNe, hEnd⟩
        · left
          omega
        · rcases hKept p hp with hp | ⟨hAt, hShort⟩
          · exact Or.inr ⟨p, hp, hNe, by omega⟩
          · omega

/-- What no piece covers is read from the file. -/
theorem Overlay.read (h : Overlay file pieces whole)
    (hFree : ∀ p ∈ pieces, ∀ j, Covers p.1 p.2.length j → ¬ Covers a n j)
    (hRead : readAt file a n = some d) : readAt whole a n = some d := by
  obtain ⟨hd, hFits, hBytes⟩ := readAt_eq_some.mp hRead
  apply readAt_eq_some.mpr
  refine ⟨hd, hFits.imp_right fun hFits => hFits.trans h.longer, ?_⟩
  intro i hi
  rw [hBytes i hi, h.outside (a + i)]
  intro p hp hCovers
  exact hFree p hp _ hCovers ⟨by omega, by omega⟩

end FileImage

end DataReel
