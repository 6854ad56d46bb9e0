import DataReel.Database.CachedFile
import DataReel.Database.CacheRun

/-! # The file behind the cache

A segment has the bytes of the plain file from its address on, and the file becomes the plain one when
the dirty segments are written. A segment in the cache is taken as it is, so that this holds as long as
no call asks for more bytes than the segment has and no write is shorter than the dirty bytes that it
replaces.
-/

namespace DataReel

open FileImage CacheCall

namespace Cache

variable {β : Type} {nodes : List Int} {s : Cache β}

theorem find_cases (hNodup : nodes.Nodup) (hs : Holds nodes s) (found : β → Bool) :
    (∃ p ∈ nodes, s.find found = some (some p) ∧ found (s.entry p) = true) ∨
      (s.find found = some none ∧ ∀ p ∈ nodes, found (s.entry p) = false) := by
  obtain ⟨hNumber, o, hRing⟩ := hs
  have hFind : s.find found = some (o.find? fun p => found (s.entry p)) := by
    rw [find, hNumber]
    exact hRing.search_forward _ hNodup
  cases hAt : o.find? fun p => found (s.entry p) with
  | some p =>
    left
    refine ⟨p, hRing.every.mem_iff.mp (List.mem_of_find?_eq_some hAt), ?_, ?_⟩
    · rw [hFind, hAt]
    · have hFound := List.find?_some hAt
      exact hFound
  | none =>
    right
    constructor
    · rw [hFind, hAt]
    · intro p hp
      have hNot := List.find?_eq_none.mp hAt p (hRing.every.mem_iff.mpr hp)
      simpa using hNot

/-- The search for an empty segment, from the tail backward. -/
theorem search_cases (hNodup : nodes.Nodup) (hs : Holds nodes s) (empty : β → Bool) :
    (∃ p ∈ nodes, Links.search (fun p => empty (s.entry p)) s.links.prev s.links.tail s.number s.links.tail =
        some (some p) ∧ empty (s.entry p) = true) ∨
      (Links.search (fun p => empty (s.entry p)) s.links.prev s.links.tail s.number s.links.tail = some none ∧
        ∀ p ∈ nodes, empty (s.entry p) = false) := by
  obtain ⟨hNumber, o, hRing⟩ := hs
  have hSearch := hRing.search_backward (fun p => empty (s.entry p)) hNodup
  rw [hNumber, hSearch]
  cases hAt : o.reverse.find? fun p => empty (s.entry p) with
  | some p =>
    left
    have hMem := List.mem_reverse.mp (List.mem_of_find?_eq_some hAt)
    have hFound := List.find?_some hAt
    exact ⟨p, hRing.every.mem_iff.mp hMem, rfl, hFound⟩
  | none =>
    right
    refine ⟨rfl, ?_⟩
    intro p hp
    have hNot := List.find?_eq_none.mp hAt p (List.mem_reverse.mpr (hRing.every.mem_iff.mpr hp))
    simpa using hNot

end Cache

namespace CachedFile

variable {nodes : List Int} {s t : CachedFile} {address : FAU} {bytes : Nat} {p : Int}

/-! ## What an allocation does -/

theorem allocSegment_unset : s.allocSegment (-1) bytes = some (none, s) := by
  rw [allocSegment, DatabaseCache.allocSegment, if_pos rfl]
  dsimp only
  rw [if_neg (fun h => h.1 rfl)]

/-- The file takes the bytes of a dirty segment. -/
theorem flush_answers (s : CachedFile) {b : DatabaseSegment} (hDirty : b.isDirty = true) (hAt : 0 ≤ b.dsAddress) :
    b.flush (some s.answers) = (⟨false, -1, b.ds⟩, true) := by
  have hWrite : s.answers.write b = true := by simpa [answers] using hAt
  have hPlace : b.dsAddress ≠ -1 := by
    intro hUnset
    rw [hUnset] at hAt
    exact absurd hAt (by decide)
  simp [DatabaseSegment.flush, hDirty, hPlace, hWrite]

/-- A segment is made free, and flushed before if it is dirty. -/
theorem findEmptySegment_cases (hNodup : nodes.Nodup) (hs : Holds nodes s.cache)
    (hDirty : ∀ p ∈ nodes, (s.cache.entry p).isDirty = true → 0 ≤ (s.cache.entry p).dsAddress) :
    ∃ p ∈ nodes, ∃ c, DatabaseCache.findEmptySegment (some s.answers) s.cache = some (some p, c) ∧
      Holds nodes c ∧ c.links.head = p ∧ (∃ b, c.entry = Function.update s.cache.entry p b) ∧
      s.evicted = (s.cache.entry p).flushTo s.file := by
  rcases Cache.search_cases hNodup hs (fun b : DatabaseSegment => !b.isDirty) with
    ⟨p, hp, hSearch, hClean⟩ | ⟨hSearch, hAll⟩
  · refine ⟨p, hp, DatabaseCache.promoteSegment s.cache p, ?_, Cache.holds_promote hNodup hs hp,
      Cache.promote_links_head hs hNodup hp, ⟨s.cache.entry p, ?_⟩, ?_⟩
    · rw [DatabaseCache.findEmptySegment, hSearch]
    · exact (Function.update_eq_self p s.cache.entry).symm
    · have hKept : (s.cache.entry p).flushTo s.file = s.file := by
        apply if_neg
        rintro ⟨hDirtyAt, -⟩
        rw [hDirtyAt] at hClean
        cases hClean
      rw [evicted, hSearch, hKept]
  · have hTail := Cache.tail_mem hs
    have hTailDirty : (s.cache.entry s.cache.links.tail).isDirty = true := by
      simpa using hAll _ hTail
    have hAt := hDirty _ hTail hTailDirty
    have hFlush := flush_answers s hTailDirty hAt
    refine ⟨s.cache.links.tail, hTail, DatabaseCache.promoteSegment (s.cache.setEntry s.cache.links.tail
      ⟨false, -1, (s.cache.entry s.cache.links.tail).ds⟩) s.cache.links.tail, ?_,
      Cache.holds_promote hNodup (Cache.holds_setEntry hs _) hTail, Cache.promote_links_head hs hNodup hTail,
      ⟨_, rfl⟩, ?_⟩
    · rw [DatabaseCache.findEmptySegment, hSearch]
      dsimp only
      rw [hFlush]
      rfl
    · rw [evicted, hSearch]

/-- A segment that is in the cache is returned; else one is made free, and the bytes are read into it if
any are asked for. -/
theorem allocSegment_cases (bytes : Nat) (hNodup : nodes.Nodup) (hs : Holds nodes s.cache)
    (hDirty : ∀ p ∈ nodes, (s.cache.entry p).isDirty = true → 0 ≤ (s.cache.entry p).dsAddress)
    (hAddress : address ≠ -1) :
    ∃ r t, s.allocSegment address bytes = some (r, t) ∧ Holds nodes t.cache ∧
      ((∃ p ∈ nodes, r = some p ∧ (s.cache.entry p).dsAddress = address ∧
          t.cache.entry = s.cache.entry ∧ t.file = s.file) ∨
        (∀ p ∈ nodes, (s.cache.entry p).dsAddress ≠ address) ∧
          ∃ p ∈ nodes, t.file = (s.cache.entry p).flushTo s.file ∧
            ((∃ data, r = some p ∧ t.cache.entry = Function.update s.cache.entry p ⟨false, address, data⟩ ∧
                (bytes = 0 ∧ data = [] ∨ 0 ≤ address ∧ readAt t.file address.toNat bytes = some data)) ∨
              r = none ∧ 0 < bytes ∧
                t.cache.entry = Function.update s.cache.entry p DatabaseSegment.resetSegment)) := by
  rcases Cache.find_cases hNodup hs (fun b : DatabaseSegment => b.dsAddress = address) with
    ⟨p, hp, hFind, hAt⟩ | ⟨hFind, hNot⟩
  · have hFind : s.cache.findSegment address = some (some p) := hFind
    refine ⟨some p, ⟨DatabaseCache.promoteSegment s.cache p, s.file⟩, ?_, Cache.holds_promote hNodup hs hp,
      Or.inl ⟨p, hp, rfl, of_decide_eq_true hAt, rfl, rfl⟩⟩
    rw [allocSegment, DatabaseCache.allocSegment, if_neg hAddress, hFind]
    dsimp only
    rw [if_neg (fun h => nomatch h.2)]
  · have hFind : s.cache.findSegment address = some none := hFind
    have hNot : ∀ p ∈ nodes, (s.cache.entry p).dsAddress ≠ address := fun p hp => of_decide_eq_false (hNot p hp)
    obtain ⟨p, hp, c, hEmpty, hHolds, hHead, ⟨b, hEntry⟩, hEvicted⟩ := findEmptySegment_cases hNodup hs hDirty
    have hSet (b' : DatabaseSegment) : (c.setEntry p b').entry = Function.update s.cache.entry p b' := by
      rw [Cache.setEntry, hEntry, Function.update_idem]
    have hMissed : address ≠ -1 ∧ s.cache.findSegment address = some none := ⟨hAddress, hFind⟩
    by_cases hBytes : 0 < bytes
    · cases hRead : s.answers.read address bytes with
      | some data =>
        refine ⟨some p, ⟨c.setEntry p ⟨false, address, data⟩, s.evicted⟩, ?_, Cache.holds_setEntry hHolds _,
          Or.inr ⟨hNot, p, hp, hEvicted, Or.inl ⟨data, rfl, hSet _, Or.inr ?_⟩⟩⟩
        · rw [allocSegment, DatabaseCache.allocSegment, if_neg hAddress, hFind, hEmpty]
          dsimp only
          rw [if_pos ⟨hBytes, hAddress⟩, Option.bind_some, hRead]
          dsimp only
          rw [if_pos ⟨hAddress, rfl⟩]
          rfl
        · unfold answers at hRead
          dsimp only at hRead
          split at hRead
          · exact ⟨‹_›, hRead⟩
          · cases hRead
      | none =>
        refine ⟨none, ⟨DatabaseCache.demoteSegment (c.setEntry p DatabaseSegment.resetSegment) p, s.evicted⟩, ?_,
          Cache.holds_demote_head hNodup (Cache.holds_setEntry hHolds _) hp hHead,
          Or.inr ⟨hNot, p, hp, hEvicted, Or.inr ⟨rfl, hBytes, hSet _⟩⟩⟩
        rw [allocSegment, DatabaseCache.allocSegment, if_neg hAddress, hFind, hEmpty]
        dsimp only
        rw [if_pos ⟨hBytes, hAddress⟩, Option.bind_some, hRead]
        dsimp only
        rw [if_pos ⟨hAddress, rfl⟩]
    · refine ⟨some p, ⟨c.setEntry p ⟨false, address, []⟩, s.evicted⟩, ?_, Cache.holds_setEntry hHolds _,
        Or.inr ⟨hNot, p, hp, hEvicted, Or.inl ⟨[], rfl, hSet _, Or.inl ⟨by omega, rfl⟩⟩⟩⟩
      rw [allocSegment, DatabaseCache.allocSegment, if_neg hAddress, hFind, hEmpty]
      dsimp only
      rw [if_neg (fun h => hBytes h.1)]
      dsimp only
      rw [if_pos ⟨hAddress, rfl⟩]
      rfl

/-! ## The plain file -/

/-- The bytes that are to be written. -/
def pieces (nodes : List Int) (entry : Int → DatabaseSegment) : Set (Nat × List UInt8) :=
  {x | ∃ p ∈ nodes, (entry p).isDirty = true ∧ (entry p).dsAddress = x.1 ∧ (entry p).ds = x.2}

/-- Two ranges with different starts have no byte in common. -/
def Apart (ranges : Set (Int × Nat)) : Prop :=
  ∀ x ∈ ranges, ∀ y ∈ ranges, x.1 ≠ y.1 → ∀ j : Int, ¬ ((x.1 ≤ j ∧ j < x.1 + x.2) ∧ y.1 ≤ j ∧ j < y.1 + y.2)

/-- The file becomes the plain one when the dirty segments are written. -/
structure Backed (nodes : List Int) (plain : List UInt8) (s : CachedFile) : Prop where
  unique : ∀ p ∈ nodes, ∀ q ∈ nodes, (s.cache.entry p).dsAddress ≠ -1 →
    (s.cache.entry q).dsAddress = (s.cache.entry p).dsAddress → q = p
  dirty : ∀ p ∈ nodes, (s.cache.entry p).isDirty = true → 0 ≤ (s.cache.entry p).dsAddress
  overlay : Overlay s.file (pieces nodes s.cache.entry) plain

/-- A segment that is in use has bytes of the plain file, in a range of some call. -/
structure Agrees (ranges : Set (Int × Nat)) (plain : List UInt8) (b : DatabaseSegment) : Prop where
  placed : b.dsAddress ≠ -1 → ∃ n, (b.dsAddress, n) ∈ ranges ∧ b.ds.length ≤ n
  nowhere : b.dsAddress ≠ -1 → b.dsAddress < 0 → b.ds = []
  content : 0 ≤ b.dsAddress → readAt plain b.dsAddress.toNat b.ds.length = some b.ds

/-- The segments and the file hold the plain file together. -/
structure Sound (nodes : List Int) (ranges : Set (Int × Nat)) (plain : List UInt8) (s : CachedFile) : Prop where
  holds : Holds nodes s.cache
  backed : Backed nodes plain s
  agrees : ∀ p ∈ nodes, Agrees ranges plain (s.cache.entry p)

variable {ranges : Set (Int × Nat)} {plain : List UInt8} {a b n k : Nat} {l d : List UInt8}

theorem Apart.not_covers (h : Apart ranges) (ha : ((a : Int), n) ∈ ranges) (hb : ((b : Int), k) ∈ ranges)
    (hNe : a ≠ b) {i m : Nat} (hi : i ≤ n) (hm : m ≤ k) (j : Nat) (hj : Covers a i j) : ¬ Covers b m j := by
  intro hj'
  unfold Covers at hj hj'
  have hStart : (a : Int) ≠ b := by omega
  refine h _ ha _ hb hStart j ⟨⟨?_, ?_⟩, ?_, ?_⟩
  all_goals
    dsimp only
    omega

theorem mem_pieces {entry : Int → DatabaseSegment} : (a, l) ∈ pieces nodes entry ↔
    ∃ p ∈ nodes, entry p = ⟨true, a, l⟩ := by
  constructor
  · rintro ⟨p, hp, hDirty, hAt, hData⟩
    refine ⟨p, hp, ?_⟩
    rcases hEntry : entry p with ⟨isDirty, dsAddress, ds⟩
    rw [hEntry] at hDirty hAt hData
    dsimp only at hDirty hAt hData
    rw [hDirty, hAt, hData]
  · rintro ⟨p, hp, hEntry⟩
    exact ⟨p, hp, by rw [hEntry], by rw [hEntry], by rw [hEntry]⟩

/-- The pieces without the one of a segment that is made free. -/
theorem Backed.overlay_freed (h : Backed nodes plain s) (hp : p ∈ nodes) {b : DatabaseSegment}
    (hClean : b.isDirty = false) : Overlay ((s.cache.entry p).flushTo s.file)
      (pieces nodes (Function.update s.cache.entry p b)) plain := by
  have hOther (q : Int) (hq : q ≠ p) : Function.update s.cache.entry p b q = s.cache.entry q :=
    Function.update_of_ne hq _ _
  cases hDirty : (s.cache.entry p).isDirty with
  | false =>
    have hSame : pieces nodes (Function.update s.cache.entry p b) = pieces nodes s.cache.entry := by
      ext ⟨a, l⟩
      rw [mem_pieces, mem_pieces]
      constructor
      · rintro ⟨q, hq, hEntry⟩
        by_cases hqp : q = p
        · rw [hqp, Function.update_self] at hEntry
          rw [hEntry] at hClean
          cases hClean
        · exact ⟨q, hq, by rw [← hOther q hqp, hEntry]⟩
      · rintro ⟨q, hq, hEntry⟩
        have hqp : q ≠ p := by
          rintro rfl
          rw [hEntry] at hDirty
          cases hDirty
        exact ⟨q, hq, by rw [hOther q hqp, hEntry]⟩
    rw [hSame, DatabaseSegment.flushTo, if_neg (by simp [hDirty])]
    exact h.overlay
  | true =>
    have hAt := h.dirty p hp hDirty
    obtain ⟨a, ha⟩ := Int.eq_ofNat_of_zero_le hAt
    have hEntry : s.cache.entry p = ⟨true, a, (s.cache.entry p).ds⟩ := by
      rcases hEntry : s.cache.entry p with ⟨isDirty, dsAddress, ds⟩
      rw [hEntry] at hDirty ha
      dsimp only at hDirty ha
      rw [hDirty, ha]
    have hPiece : (a, (s.cache.entry p).ds) ∈ pieces nodes s.cache.entry := mem_pieces.mpr ⟨p, hp, hEntry⟩
    have hLess : pieces nodes (Function.update s.cache.entry p b) =
        pieces nodes s.cache.entry \ {(a, (s.cache.entry p).ds)} := by
      ext ⟨a', l⟩
      rw [Set.mem_sdiff, mem_pieces, mem_pieces, Set.mem_singleton_iff]
      constructor
      · rintro ⟨q, hq, hEntryQ⟩
        by_cases hqp : q = p
        · rw [hqp, Function.update_self] at hEntryQ
          rw [hEntryQ] at hClean
          cases hClean
        · rw [hOther q hqp] at hEntryQ
          refine ⟨⟨q, hq, hEntryQ⟩, ?_⟩
          intro hEq
          apply hqp
          apply h.unique p hp q hq
          · rw [ha]
            exact Int.ne_of_gt (by omega)
          · rw [hEntryQ, ha, (Prod.mk.inj hEq).1]
      · rintro ⟨⟨q, hq, hEntryQ⟩, hNe⟩
        have hqp : q ≠ p := by
          rintro rfl
          apply hNe
          rw [hEntryQ] at ha
          have hStart : a' = a := Int.ofNat.inj ha
          rw [hEntryQ, hStart]
        exact ⟨q, hq, by rw [hOther q hqp, hEntryQ]⟩
    rw [hLess, DatabaseSegment.flushTo, if_pos ⟨hDirty, hAt⟩, ha]
    exact h.overlay.flush hPiece

/-- Addresses stay different when one of them becomes a new one. -/
theorem unique_update {entry : Int → DatabaseSegment} {b : DatabaseSegment}
    (h : ∀ q ∈ nodes, ∀ r ∈ nodes, (entry q).dsAddress ≠ -1 → (entry r).dsAddress = (entry q).dsAddress → r = q)
    (hNew : b.dsAddress ≠ -1 → ∀ q ∈ nodes, q ≠ p → (entry q).dsAddress ≠ b.dsAddress) :
    ∀ q ∈ nodes, ∀ r ∈ nodes, (Function.update entry p b q).dsAddress ≠ -1 →
      (Function.update entry p b r).dsAddress = (Function.update entry p b q).dsAddress → r = q := by
  intro q hq r hr hSet hSame
  by_cases hqp : q = p
  · subst hqp
    by_cases hrp : r = q
    · exact hrp
    · rw [Function.update_self] at hSet hSame
      rw [Function.update_of_ne hrp] at hSame
      exact absurd hSame (hNew hSet r hr hrp)
  · rw [Function.update_of_ne hqp] at hSet hSame
    by_cases hrp : r = p
    · subst hrp
      rw [Function.update_self] at hSame
      exact absurd hSame.symm (hNew (by rw [hSame]; exact hSet) q hq hqp)
    · rw [Function.update_of_ne hrp] at hSame
      exact h q hq r hr hSet hSame

/-- A segment is made free, and flushed before if it is dirty. -/
theorem Backed.free (h : Backed nodes plain s) (hp : p ∈ nodes) {b : DatabaseSegment} (hClean : b.isDirty = false)
    (hEntry : t.cache.entry = Function.update s.cache.entry p b)
    (hFile : t.file = (s.cache.entry p).flushTo s.file)
    (hNew : b.dsAddress ≠ -1 → ∀ q ∈ nodes, (s.cache.entry q).dsAddress ≠ b.dsAddress) :
    Backed nodes plain t := by
  constructor
  · rw [hEntry]
    exact unique_update h.unique fun hSet q hq _ => hNew hSet q hq
  · rw [hEntry]
    intro q hq hDirty
    by_cases hqp : q = p
    · rw [hqp, Function.update_self] at hDirty
      rw [hClean] at hDirty
      cases hDirty
    · rw [Function.update_of_ne hqp] at hDirty ⊢
      exact h.dirty q hq hDirty
  · rw [hEntry, hFile]
    exact h.overlay_freed hp hClean

/-- A segment is made free and takes bytes of the plain file. -/
theorem Sound.load (h : Sound nodes ranges plain s) (hp : p ∈ nodes) {b : DatabaseSegment}
    (hClean : b.isDirty = false) (hAgrees : Agrees ranges plain b) (hHolds : Holds nodes t.cache)
    (hEntry : t.cache.entry = Function.update s.cache.entry p b)
    (hFile : t.file = (s.cache.entry p).flushTo s.file)
    (hNew : b.dsAddress ≠ -1 → ∀ q ∈ nodes, (s.cache.entry q).dsAddress ≠ b.dsAddress) :
    Sound nodes ranges plain t := by
  refine ⟨hHolds, h.backed.free hp hClean hEntry hFile hNew, ?_⟩
  intro q hq
  rw [hEntry]
  by_cases hqp : q = p
  · rw [hqp, Function.update_self]
    exact hAgrees
  · rw [Function.update_of_ne hqp]
    exact h.agrees q hq

/-- No other segment has a byte of the range. -/
theorem Sound.apart (h : Sound nodes ranges plain s) (hApart : Apart ranges) (hRange : ((a : Int), n) ∈ ranges)
    (hp : p ∈ nodes) (hAt : 0 ≤ (s.cache.entry p).dsAddress) (hNe : (s.cache.entry p).dsAddress ≠ a) (hk : k ≤ n)
    (j : Nat) (hj : Covers (s.cache.entry p).dsAddress.toNat (s.cache.entry p).ds.length j) : ¬ Covers a k j := by
  obtain ⟨b, hb⟩ := Int.eq_ofNat_of_zero_le hAt
  have hSet : (s.cache.entry p).dsAddress ≠ -1 := by
    intro hUnset
    rw [hUnset] at hAt
    exact absurd hAt (by decide)
  obtain ⟨m, hm, hShort⟩ := (h.agrees p hp).placed hSet
  rw [hb] at hm hNe hj
  have hba : b ≠ a := fun hEq => hNe (by rw [hEq])
  exact hApart.not_covers hm hRange hba hShort hk j hj

/-- What an allocation leaves, and the segment that it returns. -/
theorem Sound.allocSegment (h : Sound nodes ranges plain s) (hNodup : nodes.Nodup) (hApart : Apart ranges)
    (hAddress : address ≠ -1) (hRange : (address, n) ∈ ranges) (hBytes : bytes ≤ n) :
    ∃ r t, s.allocSegment address bytes = some (r, t) ∧ Sound nodes ranges plain t ∧
      (r = none → 0 < bytes) ∧
      ∀ p, r = some p → p ∈ nodes ∧ (t.cache.entry p).dsAddress = address ∧
        ((s.cache.entry p).dsAddress = address ∧ t.cache.entry = s.cache.entry ∨
          (∀ q ∈ nodes, (s.cache.entry q).dsAddress ≠ address) ∧
            (t.cache.entry p).isDirty = false ∧ (t.cache.entry p).ds.length = bytes) := by
  have hDirty := h.backed.dirty
  obtain ⟨r, t, hResult, hHolds, hCases⟩ := allocSegment_cases bytes hNodup h.holds hDirty hAddress
  refine ⟨r, t, hResult, ?_⟩
  rcases hCases with ⟨p, hp, rfl, hAt, hEntry, hFile⟩ | ⟨hMiss, p, hp, hFile, hCases⟩
  · refine ⟨?_, nofun, ?_⟩
    · obtain ⟨-, ⟨hUnique, hDirty, hOverlay⟩, hAgrees⟩ := h
      rw [← hEntry] at hUnique hDirty hOverlay hAgrees
      rw [← hFile] at hOverlay
      exact ⟨hHolds, ⟨hUnique, hDirty, hOverlay⟩, hAgrees⟩
    · rintro _ ⟨⟩
      exact ⟨hp, by rw [hEntry, hAt], Or.inl ⟨hAt, hEntry⟩⟩
  · rcases hCases with ⟨data, rfl, hEntry, hData⟩ | ⟨rfl, hAsked, hEntry⟩
    · have hLength : data.length = bytes := by
        rcases hData with ⟨hNone, rfl⟩ | ⟨-, hRead⟩
        · rw [hNone]
          rfl
        · exact (readAt_eq_some.mp hRead).1
      have hAgrees : Agrees ranges plain ⟨false, address, data⟩ := by
        constructor
        · exact fun _ => ⟨n, hRange, by rw [hLength]; exact hBytes⟩
        · intro _ hNegative
          rcases hData with ⟨-, rfl⟩ | ⟨hAt, -⟩
          · rfl
          · exact absurd hAt (not_le.mpr hNegative)
        · intro hAt
          obtain ⟨a, ha⟩ := Int.eq_ofNat_of_zero_le hAt
          dsimp only at ha ⊢
          rcases hData with ⟨-, rfl⟩ | ⟨-, hRead⟩
          · exact readAt_eq_some.mpr ⟨rfl, Or.inl rfl, nofun⟩
          · rw [hLength]
            rw [hFile] at hRead
            have hClean : (⟨false, address, data⟩ : DatabaseSegment).isDirty = false := rfl
            apply (h.backed.overlay_freed hp hClean).read _ hRead
            intro x hx j hj
            obtain ⟨q, hq, hDirtyQ, hAtQ, hDataQ⟩ := hx
            have hqp : q ≠ p := by
              rintro rfl
              rw [Function.update_self] at hDirtyQ
              cases hDirtyQ
            rw [Function.update_of_ne hqp] at hDirtyQ hAtQ hDataQ
            have hNe := hMiss q hq
            rw [ha] at hNe hRange ⊢
            have hStart : (s.cache.entry q).dsAddress.toNat = x.1 := by
              rw [hAtQ]
              rfl
            rw [← hDataQ, ← hStart] at hj
            exact h.apart hApart hRange hq (hDirty q hq hDirtyQ) hNe hBytes j hj
      have hSound := h.load hp rfl hAgrees hHolds hEntry hFile fun _ => hMiss
      refine ⟨hSound, nofun, ?_⟩
      rintro _ ⟨⟩
      rw [hEntry, Function.update_self]
      exact ⟨hp, rfl, Or.inr ⟨hMiss, rfl, hLength⟩⟩
    · have hAgrees : Agrees ranges plain DatabaseSegment.resetSegment :=
        ⟨fun hSet => absurd rfl hSet, fun hSet => absurd rfl hSet, fun hAt => absurd hAt (by decide)⟩
      have hSound := h.load hp rfl hAgrees hHolds hEntry hFile fun hSet => absurd rfl hSet
      exact ⟨hSound, fun _ => hAsked, nofun⟩

/-- A segment takes the bytes of a write, which are no fewer than the dirty bytes that it had. -/
theorem Sound.setWritten (h : Sound nodes ranges plain s) (hApart : Apart ranges) (hp : p ∈ nodes)
    (hAt : (s.cache.entry p).dsAddress = (a : Int)) (hRange : ((a : Int), l.length) ∈ ranges)
    (hLong : (s.cache.entry p).isDirty = true → (s.cache.entry p).ds.length ≤ l.length) :
    Sound nodes ranges (writeAt plain a l) ⟨s.cache.setEntry p ⟨true, a, l⟩, s.file⟩ := by
  have hUnset : ∀ b : Nat, (b : Int) ≠ -1 := fun b => by omega
  have hOthers : ∀ q ∈ nodes, q ≠ p → (s.cache.entry q).dsAddress ≠ a := by
    intro q hq hqp hSame
    apply hqp
    apply h.backed.unique p hp q hq
    · rw [hAt]
      exact hUnset a
    · rw [hSame, hAt]
  have hCovers (q : Int) (hq : q ∈ nodes) (hqp : q ≠ p) (hAtQ : 0 ≤ (s.cache.entry q).dsAddress) :
      ∀ j, Covers (s.cache.entry q).dsAddress.toNat (s.cache.entry q).ds.length j → ¬ Covers a l.length j :=
    fun j => h.apart hApart hRange hq hAtQ (hOthers q hq hqp) le_rfl j
  have hSelf : Function.update s.cache.entry p ⟨true, (a : Int), l⟩ p = ⟨true, (a : Int), l⟩ :=
    Function.update_self _ _ _
  have hElse (q : Int) (hqp : q ≠ p) :
      Function.update s.cache.entry p ⟨true, (a : Int), l⟩ q = s.cache.entry q := Function.update_of_ne hqp _ _
  refine ⟨Cache.holds_setEntry h.holds _, ⟨unique_update h.backed.unique fun _ => hOthers, ?_, ?_⟩, ?_⟩
  · intro q hq hDirty
    change 0 ≤ (Function.update s.cache.entry p ⟨true, (a : Int), l⟩ q).dsAddress
    change (Function.update s.cache.entry p ⟨true, (a : Int), l⟩ q).isDirty = true at hDirty
    by_cases hqp : q = p
    · rw [hqp, hSelf]
      exact Int.natCast_nonneg a
    · rw [hElse q hqp] at hDirty ⊢
      exact h.backed.dirty q hq hDirty
  · change Overlay s.file (pieces nodes (Function.update s.cache.entry p ⟨true, (a : Int), l⟩)) _
    apply h.backed.overlay.write
    · exact mem_pieces.mpr ⟨p, hp, hSelf⟩
    · rintro ⟨b, d⟩ hPiece
      obtain ⟨q, hq, hEntry⟩ := mem_pieces.mp hPiece
      by_cases hqp : q = p
      · left
        rw [hqp, hSelf] at hEntry
        injection hEntry with _ hStart hData
        rw [hData, Int.ofNat.inj hStart]
      · right
        rw [hElse q hqp] at hEntry
        refine ⟨mem_pieces.mpr ⟨q, hq, hEntry⟩, ?_⟩
        have hAtQ := hCovers q hq hqp
        rw [hEntry] at hAtQ
        exact hAtQ (Int.natCast_nonneg b)
    · rintro ⟨b, d⟩ hPiece
      obtain ⟨q, hq, hEntry⟩ := mem_pieces.mp hPiece
      by_cases hqp : q = p
      · right
        rw [hqp] at hEntry
        rw [hEntry] at hAt hLong
        exact ⟨Int.ofNat.inj hAt, hLong rfl⟩
      · left
        exact mem_pieces.mpr ⟨q, hq, (hElse q hqp).trans hEntry⟩
  · intro q hq
    change Agrees ranges (writeAt plain a l) (Function.update s.cache.entry p ⟨true, (a : Int), l⟩ q)
    by_cases hqp : q = p
    · rw [hqp, hSelf]
      exact ⟨fun _ => ⟨l.length, hRange, le_rfl⟩,
        fun _ hNegative => absurd (Int.natCast_nonneg a) (not_le.mpr hNegative), fun _ => readAt_writeAt_self⟩
    · rw [hElse q hqp]
      obtain ⟨hPlaced, hNowhere, hContent⟩ := h.agrees q hq
      exact ⟨hPlaced, hNowhere, fun hAtQ => readAt_writeAt_apart (hContent hAtQ) (hCovers q hq hqp hAtQ)⟩

/-! ## The flush -/

/-- A turn of `Flush` cleans its segment. -/
theorem Backed.flushSegment (h : Backed nodes plain s) (hp : p ∈ nodes) {visited : List Int}
    (hClean : ∀ q ∈ visited, (s.cache.entry q).isDirty = false) :
    ∃ t, s.flushSegment p = (t, true) ∧ Backed nodes plain t ∧
      ∀ q ∈ visited ++ [p], (t.cache.entry q).isDirty = false := by
  cases hDirty : (s.cache.entry p).isDirty with
  | false =>
    refine ⟨s, by rw [CachedFile.flushSegment, hDirty]; rfl, h, ?_⟩
    intro q hq
    rcases List.mem_append.mp hq with hq | hq
    · exact hClean q hq
    · rw [List.mem_singleton.mp hq]
      exact hDirty
  | true =>
    have hAt := h.dirty p hp hDirty
    refine ⟨⟨s.cache.setEntry p ⟨false, -1, (s.cache.entry p).ds⟩, (s.cache.entry p).flushTo s.file⟩, ?_, ?_, ?_⟩
    · rw [CachedFile.flushSegment, hDirty, if_pos rfl, flush_answers s hDirty hAt]
      rfl
    · exact h.free hp rfl rfl rfl fun hSet => absurd rfl hSet
    · intro q hq
      change (Function.update s.cache.entry p ⟨false, -1, (s.cache.entry p).ds⟩ q).isDirty = false
      by_cases hqp : q = p
      · rw [hqp, Function.update_self]
      · rw [Function.update_of_ne hqp]
        rcases List.mem_append.mp hq with hq | hq
        · exact hClean q hq
        · exact absurd (List.mem_singleton.mp hq) hqp

/-- After `Flush` the file is the plain one. -/
theorem Sound.flush (h : Sound nodes ranges plain s) (hNodup : nodes.Nodup) :
    ∃ t, s.flush = some (t, true) ∧ t.file = plain := by
  obtain ⟨⟨hNumber, o, hRing⟩, hBacked, -⟩ := h
  have hTurn (X : List Int) (p : Int) (Y : List Int) (t : CachedFile) (ho : o = X ++ p :: Y)
      (ht : Backed nodes plain t ∧ ∀ q ∈ X, (t.cache.entry q).isDirty = false) :
      ∃ u, flushSegment p t = (u, true) ∧ Backed nodes plain u ∧
        ∀ q ∈ X ++ [p], (u.cache.entry q).isDirty = false := by
    have hp : p ∈ nodes := by
      rw [← hRing.every.mem_iff, ho]
      exact List.mem_append_right X List.mem_cons_self
    exact ht.1.flushSegment hp ht.2
  obtain ⟨t, hFlush, hDone, hClean⟩ := hRing.visit_forward hNodup hTurn ⟨hBacked, nofun⟩
  refine ⟨t, ?_, ?_⟩
  · rw [CachedFile.flush, hNumber]
    exact hFlush
  · have hNone : pieces nodes t.cache.entry = ∅ := by
      rw [Set.eq_empty_iff_forall_notMem]
      rintro x ⟨p, hp, hDirty, -⟩
      rw [hClean p (hRing.every.mem_iff.mpr hp)] at hDirty
      cases hDirty
    have hOverlay := hDone.overlay
    rw [hNone] at hOverlay
    exact hOverlay.eq

/-! ## One call -/

/-- A segment with the address has as many bytes as are asked for. -/
def LongEnough (s : CachedFile) (address : FAU) (bytes : Nat) : Prop :=
  address ≠ -1 → ∀ p, s.cache.findSegment address = some (some p) → bytes ≤ (s.cache.entry p).ds.length

/-- A dirty segment with the address has no more bytes than are written. -/
def ShortEnough (s : CachedFile) (address : FAU) (bytes : Nat) : Prop :=
  address ≠ -1 → ∀ p, s.cache.findSegment address = some (some p) → (s.cache.entry p).isDirty = true →
    (s.cache.entry p).ds.length ≤ bytes

theorem Sound.findSegment_eq (h : Sound nodes ranges plain s) (hNodup : nodes.Nodup) (hp : p ∈ nodes)
    (hAt : (s.cache.entry p).dsAddress = address) (hAddress : address ≠ -1) :
    s.cache.findSegment address = some (some p) := by
  rcases Cache.find_cases hNodup h.holds (fun b : DatabaseSegment => b.dsAddress = address) with
    ⟨q, hq, hFind, hAtQ⟩ | ⟨-, hNot⟩
  · have hqp : q = p := by
      apply h.backed.unique p hp q hq
      · rw [hAt]
        exact hAddress
      · rw [of_decide_eq_true hAtQ, hAt]
    rw [← hqp]
    exact hFind
  · exact absurd hAt (of_decide_eq_false (hNot p hp))

theorem Sound.findSegment_cases (h : Sound nodes ranges plain s) (hNodup : nodes.Nodup) (address : FAU) :
    (∃ p ∈ nodes, s.cache.findSegment address = some (some p) ∧ (s.cache.entry p).dsAddress = address) ∨
      s.cache.findSegment address = some none := by
  rcases Cache.find_cases hNodup h.holds (fun b : DatabaseSegment => b.dsAddress = address) with
    ⟨p, hp, hFind, hAt⟩ | ⟨hFind, -⟩
  · exact Or.inl ⟨p, hp, hFind, of_decide_eq_true hAt⟩
  · exact Or.inr hFind

/-- A segment that is long enough begins with the bytes of the plain file. -/
theorem Sound.read_segment (h : Sound nodes ranges plain s) (hp : p ∈ nodes)
    (hAt : (s.cache.entry p).dsAddress = address) (hAddress : address ≠ -1)
    (hLong : bytes ≤ (s.cache.entry p).ds.length) :
    readAt plain address.toNat bytes = some ((s.cache.entry p).ds.take bytes) := by
  obtain ⟨-, hNowhere, hContent⟩ := h.agrees p hp
  rw [hAt] at hNowhere hContent
  by_cases hPlace : 0 ≤ address
  · exact readAt_take (hContent hPlace) hLong
  · have hNone := hNowhere hAddress (not_le.mp hPlace)
    rw [hNone, List.length_nil, Nat.le_zero] at hLong
    rw [hLong, hNone]
    exact readAt_eq_some.mpr ⟨rfl, Or.inl rfl, nofun⟩

/-- An allocation for a read. -/
theorem Sound.allocRead (h : Sound nodes ranges plain s) (hNodup : nodes.Nodup) (hApart : Apart ranges)
    (hRange : address ≠ -1 → (address, bytes) ∈ ranges) (hLong : s.LongEnough address bytes) :
    ∃ r t, s.allocSegment address bytes = some (r, t) ∧ Sound nodes ranges plain t ∧
      ∀ p, r = some p → p ∈ nodes ∧ address ≠ -1 ∧
        readAt plain address.toNat bytes = some ((t.cache.entry p).ds.take bytes) := by
  by_cases hAddress : address = -1
  · rw [hAddress]
    exact ⟨none, s, allocSegment_unset, h, nofun⟩
  · obtain ⟨r, t, hResult, ht, -, hSegment⟩ := h.allocSegment hNodup hApart hAddress (hRange hAddress) le_rfl
    refine ⟨r, t, hResult, ht, ?_⟩
    intro p hr
    obtain ⟨hp, hAt, hCases⟩ := hSegment p hr
    have hFull : bytes ≤ (t.cache.entry p).ds.length := by
      rcases hCases with ⟨hHit, hEntry⟩ | ⟨-, -, hLength⟩
      · rw [hEntry]
        exact hLong hAddress p (h.findSegment_eq hNodup hp hHit hAddress)
      · exact hLength.ge
    exact ⟨hp, hAddress, ht.read_segment hp hAt hAddress hFull⟩

end CachedFile

namespace DBCacheNode

open CachedFile

variable {nodes : List Int} {s : CachedFile} {node : DBCacheNode} {address : FAU} {bytes : Nat}
  {ranges : Set (Int × Nat)} {plain : List UInt8}

/-- The node points to no segment, or to one of the cache for an address. -/
def Linked (nodes : List Int) (node : DBCacheNode) : Prop :=
  ∀ p, node.segment = some p → p ∈ nodes ∧ node.dsAddress ≠ -1

/-- What a call of a node has to come to. -/
def Comes (nodes : List Int) (ranges : Set (Int × Nat)) (plain : List UInt8)
    (result : Option (Option Int × DBCacheNode × CachedFile)) (answer : Int → DatabaseSegment → Prop) : Prop :=
  ∃ r node t, result = some (r, node, t) ∧ Sound nodes ranges plain t ∧ Linked nodes node ∧
    ∀ p, r = some p → answer p (t.cache.entry p)

theorem cachedRead_comes (h : Sound nodes ranges plain s) (hNodup : nodes.Nodup) (hApart : Apart ranges)
    (hRange : address ≠ -1 → (address, bytes) ∈ ranges) (hLong : s.LongEnough address bytes) :
    Comes nodes ranges plain (node.cachedRead address bytes s) fun _ b =>
      readAt plain address.toNat bytes = some (b.ds.take bytes) := by
  obtain ⟨r, t, hResult, ht, hSegment⟩ := h.allocRead hNodup hApart hRange hLong
  rw [cachedRead, hResult]
  cases r with
  | none => exact ⟨_, _, _, rfl, ht, nofun, nofun⟩
  | some p =>
    obtain ⟨hp, hAddress, hRead⟩ := hSegment p rfl
    refine ⟨_, _, _, rfl, ht, ?_, ?_⟩
    · rintro _ ⟨⟩
      exact ⟨hp, hAddress⟩
    · rintro _ ⟨⟩
      exact hRead

theorem bind_comes (h : Sound nodes ranges plain s) (hNodup : nodes.Nodup) (hApart : Apart ranges)
    (hNode : Linked nodes node) (hRange : node.dsAddress ≠ -1 → (node.dsAddress, node.dsLength) ∈ ranges)
    (hLong : s.LongEnough node.dsAddress node.dsLength) :
    Comes nodes ranges plain (node.bind s) fun _ b =>
      readAt plain node.dsAddress.toNat node.dsLength = some (b.ds.take node.dsLength) := by
  have hFound (p : Int) (hp : p ∈ nodes) (hAddress : node.dsAddress ≠ -1)
      (hAt : (s.cache.entry p).dsAddress = node.dsAddress) :
      readAt plain node.dsAddress.toNat node.dsLength = some ((s.cache.entry p).ds.take node.dsLength) :=
    h.read_segment hp hAt hAddress (hLong hAddress p (h.findSegment_eq hNodup hp hAt hAddress))
  unfold bind
  split
  · next hValid =>
    refine ⟨_, _, _, rfl, h, hNode, ?_⟩
    intro p hp
    obtain ⟨hMem, hAddress⟩ := hNode p hp
    rw [valid, hp] at hValid
    exact hFound p hMem hAddress (of_decide_eq_true hValid)
  · split
    · split
      · exact ⟨_, _, _, rfl, h, nofun, nofun⟩
      · next hAddress =>
        rcases h.findSegment_cases hNodup node.dsAddress with ⟨p, hp, hFind, hAt⟩ | hFind
        · rw [hFind]
          have hPromoted : Sound nodes ranges plain ⟨s.cache.promoteSegment p, s.file⟩ :=
            ⟨Cache.holds_promote hNodup h.holds hp, ⟨h.backed.unique, h.backed.dirty, h.backed.overlay⟩, h.agrees⟩
          refine ⟨_, _, _, rfl, hPromoted, ?_, ?_⟩
          · rintro _ ⟨⟩
            exact ⟨hp, hAddress⟩
          · rintro _ ⟨⟩
            exact hFound p hp hAddress hAt
        · rw [hFind]
          exact ⟨_, _, _, rfl, h, nofun, nofun⟩
    · obtain ⟨r, t, hResult, ht, hSegment⟩ := h.allocRead hNodup hApart hRange hLong
      rw [hResult]
      cases r with
      | none => exact ⟨_, _, _, rfl, ht, nofun, nofun⟩
      | some p =>
        obtain ⟨hp, hAddress, hRead⟩ := hSegment p rfl
        refine ⟨_, _, _, rfl, ht, ?_, ?_⟩
        · rintro _ ⟨⟩
          exact ⟨hp, hAddress⟩
        · rintro _ ⟨⟩
          exact hRead

theorem cachedWrite_comes (h : Sound nodes ranges plain s) (hNodup : nodes.Nodup) (hApart : Apart ranges)
    {buf : List UInt8} (hPlace : -1 ≤ address) (hRange : address ≠ -1 → (address, buf.length) ∈ ranges)
    (hShort : s.ShortEnough address buf.length) :
    Comes nodes ranges (if 0 ≤ address then writeAt plain address.toNat buf else plain)
      (node.cachedWrite buf address s) fun _ _ => True := by
  by_cases hAddress : address = -1
  · rw [hAddress, cachedWrite, allocSegment_unset]
    exact ⟨_, _, _, rfl, h, nofun, nofun⟩
  · have hLeast (x : Int) (hx : -1 ≤ x) (hNe : x ≠ -1) : 0 ≤ x := by omega
    have hAt : 0 ≤ address := hLeast address hPlace hAddress
    obtain ⟨a, rfl⟩ := Int.eq_ofNat_of_zero_le hAt
    obtain ⟨r, t, hResult, ht, hNone, hSegment⟩ :=
      h.allocSegment hNodup hApart hAddress (hRange hAddress) (Nat.zero_le _)
    rw [if_pos hAt, cachedWrite, hResult]
    cases r with
    | none => exact absurd (hNone rfl) (Nat.lt_irrefl 0)
    | some p =>
      obtain ⟨hp, hAtP, hCases⟩ := hSegment p rfl
      have hLong : (t.cache.entry p).isDirty = true → (t.cache.entry p).ds.length ≤ buf.length := by
        intro hDirty
        rcases hCases with ⟨hHit, hEntry⟩ | ⟨-, hClean, -⟩
        · rw [hEntry] at hDirty ⊢
          exact hShort hAddress p (h.findSegment_eq hNodup hp hHit hAddress) hDirty
        · rw [hClean] at hDirty
          cases hDirty
      refine ⟨_, _, _, rfl, ?_, ?_, fun _ _ => trivial⟩
      · rw [hAtP]
        exact ht.setWritten hApart hp hAtP (hRange hAddress) hLong
      · rintro _ ⟨⟩
        exact ⟨hp, hAddress⟩

end DBCacheNode

/-! ## Runs -/

namespace NodeCall

open CachedFile DBCacheNode

variable {ι : Type} [DecidableEq ι] {nodes : List Int} {s t : NodeStore ι} {plain : List UInt8}

/-- The segment that a call finds in the cache is long enough for a read and short enough for a write. -/
def Fits (call : NodeCall ι) (s : NodeStore ι) : Prop :=
  match call with
  | cachedWrite _ buf address => s.store.ShortEnough address buf.length
  | call => s.store.LongEnough (call.place s).1 (call.place s).2

def AllFit : List (NodeCall ι) → NodeStore ι → Prop
  | [], _ => True
  | call :: calls, s => call.Fits s ∧ ∀ r t, call.step s = some (r, t) → AllFit calls t

/-- The ranges of the calls of a run. -/
def ranges : List (NodeCall ι) → NodeStore ι → Set (Int × Nat)
  | [], _ => ∅
  | call :: calls, s =>
    {x | x = call.place s ∧ x.1 ≠ -1} ∪ {x | ∃ r t, call.step s = some (r, t) ∧ x ∈ ranges calls t}

/-- A segment that a read or a `Bind` gives begins with the bytes that a plain read gives. -/
def Answered (call : NodeCall ι) (s : NodeStore ι) (r : Option Int) (t : NodeStore ι) (plain : List UInt8) : Prop :=
  match call with
  | cachedWrite _ _ _ => True
  | call => ∀ p, r = some p → readAt plain (call.place s).1.toNat (call.place s).2 =
      some ((t.store.cache.entry p).ds.take (call.place s).2)

/-- The answers of a run are right, and after a `Flush` at its end the file is the plain one. -/
def RunRight : List (NodeCall ι) → NodeStore ι → List UInt8 → Prop
  | [], s, plain => ∃ t, s.store.flush = some (t, true) ∧ t.file = plain
  | call :: calls, s, plain => ∃ r t, call.step s = some (r, t) ∧ call.Answered s r t plain ∧
      RunRight calls t (call.plain plain)

theorem put_comes {all : Set (Int × Nat)} {h : ι} {result : Option (Option Int × DBCacheNode × CachedFile)}
    {answer : Int → DatabaseSegment → Prop} (hResult : Comes nodes all plain result answer)
    (hLinked : ∀ h, Linked nodes (s.nodes h)) :
    ∃ r t, put s h result = some (r, t) ∧ Sound nodes all plain t.store ∧ (∀ h, Linked nodes (t.nodes h)) ∧
      ∀ p, r = some p → answer p (t.store.cache.entry p) := by
  obtain ⟨r, node, t, rfl, ht, hNode, hAnswer⟩ := hResult
  refine ⟨r, ⟨Function.update s.nodes h node, t⟩, rfl, ht, ?_, hAnswer⟩
  intro k
  dsimp only
  by_cases hk : k = h
  · rw [hk, Function.update_self]
    exact hNode
  · rw [Function.update_of_ne hk]
    exact hLinked k

/-- One call of a run. -/
theorem step_right {all : Set (Int × Nat)} (call : NodeCall ι) (hs : Sound nodes all plain s.store)
    (hNodup : nodes.Nodup) (hApart : Apart all) (hLinked : ∀ h, Linked nodes (s.nodes h))
    (hRange : (call.place s).1 ≠ -1 → call.place s ∈ all) (hFits : call.Fits s)
    (hWrite : ∀ h buf address, call = cachedWrite h buf address → -1 ≤ address) :
    ∃ r t, call.step s = some (r, t) ∧ Sound nodes all (call.plain plain) t.store ∧
      (∀ h, Linked nodes (t.nodes h)) ∧ call.Answered s r t plain := by
  cases call with
  | cachedRead h address bytes => exact put_comes (cachedRead_comes hs hNodup hApart hRange hFits) hLinked
  | cachedWrite h buf address =>
    obtain ⟨r, t, hStep, ht, hNodes, -⟩ :=
      put_comes (cachedWrite_comes hs hNodup hApart (hWrite h buf address rfl) hRange hFits) hLinked
    exact ⟨r, t, hStep, ht, hNodes, trivial⟩
  | bind h => exact put_comes (bind_comes hs hNodup hApart (hLinked h) hRange hFits) hLinked
  | bindBytes h bytes =>
    have hNode : Linked nodes { s.nodes h with dsLength := bytes } := hLinked h
    exact put_comes (bind_comes hs hNodup hApart hNode hRange hFits) hLinked

theorem runRight_of_sound {all : Set (Int × Nat)} (calls : List (NodeCall ι))
    (hs : Sound nodes all plain s.store) (hNodup : nodes.Nodup) (hApart : Apart all)
    (hLinked : ∀ h, Linked nodes (s.nodes h)) (hRanges : ranges calls s ⊆ all) (hFits : AllFit calls s)
    (hWrites : ∀ h buf address, cachedWrite h buf address ∈ calls → -1 ≤ address) : RunRight calls s plain := by
  induction calls generalizing s plain with
  | nil => exact hs.flush hNodup
  | cons call calls ih =>
    have hRange (hSet : (call.place s).1 ≠ -1) : call.place s ∈ all := hRanges (Or.inl ⟨rfl, hSet⟩)
    have hWrite (h : ι) (buf : List UInt8) (address : FAU) (hCall : call = cachedWrite h buf address) :
        -1 ≤ address := hWrites h buf address (by rw [hCall]; exact List.mem_cons_self)
    obtain ⟨r, t, hStep, ht, hNodes, hAnswer⟩ :=
      step_right call hs hNodup hApart hLinked hRange hFits.1 hWrite
    refine ⟨r, t, hStep, hAnswer, ?_⟩
    apply ih ht hNodes
    · exact fun x hx => hRanges (Or.inr ⟨r, t, hStep, hx⟩)
    · exact hFits.2 r t hStep
    · exact fun h buf address hMem => hWrites h buf address (List.mem_cons_of_mem _ hMem)

/-- Calls at one address. -/
theorem apart_of_address {a : Int} {calls : List (NodeCall ι)}
    (h : ∀ call ∈ calls, ∀ t : NodeStore ι, (call.place t).1 = a) : Apart (ranges calls s) := by
  have hAt : ∀ x ∈ ranges calls s, x.1 = a := by
    induction calls generalizing s with
    | nil => exact nofun
    | cons call calls ih =>
      rintro x (⟨rfl, -⟩ | ⟨r, t, -, hx⟩)
      · exact h call List.mem_cons_self s
      · exact ih (fun call hCall => h call (List.mem_cons_of_mem _ hCall)) x hx
  intro x hx y hy hNe
  exact absurd ((hAt x hx).trans (hAt y hy).symm) hNe

/-- A new cache and new nodes with any addresses, on a file. -/
def newStore (size number : Nat) (memory : Links Int) (addresses : ι → FAU) (file : List UInt8) : NodeStore ι :=
  ⟨fun h => ⟨addresses h, 0, none⟩, ⟨DatabaseCache.constructCache size memory number, file⟩⟩

omit [DecidableEq ι] in
theorem sound_newStore {size number : Nat} (memory : Links Int) (addresses : ι → FAU) (file : List UInt8)
    (hSize : 0 < size) (hFits : (bucketCount number - 1) * size < 2 ^ 32) (all : Set (Int × Nat)) :
    Sound (bucketArray size number) all file (newStore size number memory addresses file).store := by
  have hUnset {A : Prop} (h : (-1 : Int) ≠ -1) : A := absurd rfl h
  refine ⟨DatabaseCache.constructCache_holds hSize hFits, ⟨?_, nofun, ?_⟩, ?_⟩
  · exact fun p _ q _ hSet _ => hUnset hSet
  · have hNone : pieces (bucketArray size number)
        (newStore size number memory addresses file).store.cache.entry = ∅ := by
      rw [Set.eq_empty_iff_forall_notMem]
      rintro x ⟨p, -, hDirty, -⟩
      cases hDirty
    rw [hNone]
    exact Overlay.refl file
  · have hNegative : ¬ (0 : Int) ≤ -1 := by decide
    exact fun p _ => ⟨fun hSet => hUnset hSet, fun hSet => hUnset hSet, fun hAt => absurd hAt hNegative⟩

/-- A run in which every call fits the segment that it finds gives the bytes of the plain file and leaves
it after a `Flush`. The segments are in an array of less than 4 GB, ranges with different starts have no
byte in common, and no write goes to an address before the file, which could only fail. -/
theorem cachedFile_runRight (size number : Nat) (memory : Links Int) (addresses : ι → FAU) (file : List UInt8)
    (calls : List (NodeCall ι)) (hSize : 0 < size) (hMemory : (bucketCount number - 1) * size < 2 ^ 32)
    (hApart : Apart (ranges calls (newStore size number memory addresses file)))
    (hWrites : ∀ h buf address, cachedWrite h buf address ∈ calls → -1 ≤ address)
    (hFits : AllFit calls (newStore size number memory addresses file)) :
    RunRight calls (newStore size number memory addresses file) file :=
  runRight_of_sound calls (sound_newStore memory addresses file hSize hMemory _) (bucketArray_nodup hSize) hApart
    (fun _ => nofun) subset_rfl hFits hWrites

/-- Three bytes behind the end of a file of one byte are written and read. -/
theorem cachedFile_runRight_three :
    RunRight [cachedWrite () [7, 8, 9] 4, cachedRead () 4 2]
      (newStore 48 3 ⟨fun _ => 0, fun _ => 0, 0, 0⟩ (fun _ => -1) [5]) [5] := by
  apply cachedFile_runRight 48 3 _ _ [5] _ (by decide) (by decide)
  · apply apart_of_address
    intro call hCall t
    rcases List.mem_pair.mp hCall with rfl | rfl <;> rfl
  · rintro _ _ address hMem
    rcases List.mem_pair.mp hMem with hEq | hEq
    · cases hEq
      decide
    · cases hEq
  · constructor
    · intro _ p hFind
      cases hFind
    · intro r t hStep
      cases hStep
      constructor
      · intro _ p hFind
        cases hFind
        decide
      · exact fun _ _ _ => trivial

/-- Four bytes are written and then the first of them; the other three are never in the file. -/
theorem cachedFile_loses :
    Apart (ranges [cachedWrite () [1, 2, 3, 4] 0, cachedWrite () [9] 0]
      (newStore 48 3 ⟨fun _ => 0, fun _ => 0, 0, 0⟩ (fun _ => -1) [])) ∧
    ¬ RunRight [cachedWrite () [1, 2, 3, 4] 0, cachedWrite () [9] 0]
      (newStore 48 3 ⟨fun _ => 0, fun _ => 0, 0, 0⟩ (fun _ => -1) []) [] := by
  constructor
  · apply apart_of_address
    intro call hCall t
    rcases List.mem_pair.mp hCall with rfl | rfl <;> rfl
  · rintro ⟨r, t, hStep, -, r', t', hStep', -, u, hFlush, hFile⟩
    cases hStep
    cases hStep'
    cases hFlush
    revert hFile
    decide +kernel

end NodeCall

end DataReel
