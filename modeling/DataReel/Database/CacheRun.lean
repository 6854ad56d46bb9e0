import DataReel.Database.CacheRing

/-! # Runs of the caches keep their rings

A call moves at most one element of the ring. The only call that does not link it in as it should is
the demotion of an element that is neither head nor tail, since the head goes on pointing back to the
old tail.
-/

namespace DataReel

namespace Links

variable {c : Links Int} {nodes o : List Int} {p : Int}

/-- The parts of an order around one of its nodes. -/
theorem Ring.split (h : c.Ring nodes o) (hNodup : nodes.Nodup) (hp : p ∈ nodes) :
    ∃ X Y, o = X ++ p :: Y ∧ o.Nodup ∧ p ∉ X ∧ o.erase p = X ++ Y := by
  have hDistinct := h.every.nodup_iff.mpr hNodup
  obtain ⟨X, Y, rfl⟩ := List.append_of_mem (h.every.mem_iff.mpr hp)
  have hApart : p ∉ X := by
    intro hX
    exact (List.nodup_append.mp hDistinct).2.2 p hX p List.mem_cons_self rfl
  refine ⟨X, Y, rfl, hDistinct, hApart, ?_⟩
  rw [List.erase_append_right _ hApart, List.erase_cons_head]

/-- The pointers around a node that is neither head nor tail. -/
structure Middle (c : Links Int) (p : Int) : Prop where
  notHead : p ≠ c.head
  notTail : p ≠ c.tail
  prevSelf : p ≠ c.prev p
  nextSelf : p ≠ c.next p
  prevTail : c.tail ≠ c.prev p
  nextHead : c.head ≠ c.next p

theorem Between.middle {X Y : List Int} (h : c.Between X p Y) (hNodup : (X ++ p :: Y).Nodup) :
    c.Middle p := by
  obtain ⟨-, hNodupY, hApart⟩ := List.nodup_append.mp hNodup
  obtain ⟨hpY, -⟩ := List.nodup_cons.mp hNodupY
  have hFront := List.mem_of_mem_head? h.front
  have hBefore := List.mem_of_getLast? h.before
  have hAfter := List.mem_of_mem_head? h.after
  have hBack := List.mem_of_getLast? h.back
  constructor
  · exact (hApart _ hFront p List.mem_cons_self).symm
  · exact (ne_of_mem_of_not_mem hBack hpY).symm
  · exact (hApart _ hBefore p List.mem_cons_self).symm
  · exact (ne_of_mem_of_not_mem hAfter hpY).symm
  · exact (hApart _ hBefore _ (List.mem_cons_of_mem p hBack)).symm
  · exact hApart _ hFront _ (List.mem_cons_of_mem p hAfter)

theorem Middle.spliced (h : c.Middle p) : Spliced c (c.promote p) p := by
  obtain ⟨hHead, hTail, hPrev, hNext, hPrevTail, hNextHead⟩ := h
  simp only [promote, if_neg hHead, if_neg hTail]
  constructor
  all_goals
    simp +contextual [hHead, hTail, hPrev, hPrev.symm, hNext.symm, hPrevTail.symm, hNextHead.symm]

theorem promote_head : c.promote c.head = c := if_pos rfl

theorem promote_tail (hHead : c.tail ≠ c.head) (hClosed : c.prev c.head = c.tail) :
    c.promote c.tail = { c with head := c.tail, tail := c.prev c.tail } := by
  have hSame : Function.update c.prev c.head c.tail = c.prev := by
    rw [← hClosed, Function.update_eq_self]
  simp [promote, hHead, setPrev, hSame]

theorem demote_tail : c.demote c.tail = c := if_pos rfl

theorem demote_head (hTail : c.head ≠ c.tail) (hNext : c.prev (c.next c.head) = c.head)
    (hClosed : c.prev c.head = c.tail) (hAround : c.next c.tail = c.head) :
    c.demote c.head = { c with head := c.next c.head, tail := c.head } := by
  have hBack : Function.update c.prev (c.next c.head) c.head = c.prev := by
    rw [Function.update_eq_iff]
    exact ⟨hNext.symm, fun _ _ => rfl⟩
  have hPrev : Function.update c.prev c.head c.tail = c.prev := by
    rw [← hClosed, Function.update_eq_self]
  have hForward : Function.update c.next c.tail c.head = c.next := by
    rw [← hAround, Function.update_eq_self]
  simp [demote, hTail, setPrev, setNext, hBack, hPrev, hForward]

/-- `PromoteBucket` moves the bucket to the front of the order. -/
theorem Ring.promote (h : c.Ring nodes o) (hNodup : nodes.Nodup) (hp : p ∈ nodes) :
    (c.promote p).Ring nodes (p :: o.erase p) := by
  obtain ⟨X, Y, rfl, hDistinct, hApart, hErase⟩ := h.split hNodup hp
  rw [hErase]
  have hEvery : (p :: (X ++ Y)).Perm nodes := List.perm_middle.symm.trans h.every
  apply Linked.ring _ hEvery
  by_cases hX : X = []
  · subst hX
    obtain rfl : p = c.head := Option.some.inj h.linked.first
    rw [promote_head]
    exact h.linked
  · by_cases hY : Y = []
    · subst hY
      obtain rfl : p = c.tail := Option.some.inj (List.getLast?_concat.symm.trans h.linked.last)
      have hHead : c.tail ≠ c.head := by
        have hFirst := h.linked.first
        rw [List.head?_append_of_ne_nil X hX] at hFirst
        exact (ne_of_mem_of_not_mem (List.mem_of_mem_head? hFirst) hApart).symm
      rw [promote_tail hHead h.backClosed, List.append_nil]
      exact h.linked.rotate hX
    · have hBetween := h.linked.between hX hY
      have hSpliced := (hBetween.middle hDistinct).spliced
      apply hBetween.spliced_front hDistinct hSpliced
      · simp [Links.promote, (hBetween.middle hDistinct).notHead, (hBetween.middle hDistinct).notTail]
      · simp [Links.promote, (hBetween.middle hDistinct).notHead, (hBetween.middle hDistinct).notTail]

/-- `DemoteBucket` moves the head, or leaves the tail, at the end of the order. -/
theorem Ring.demote_end (h : c.Ring nodes o) (hNodup : nodes.Nodup) (hp : p ∈ nodes)
    (hEnd : p = c.head ∨ p = c.tail) : (c.demote p).Ring nodes (o.erase p ++ [p]) := by
  obtain ⟨X, Y, rfl, hDistinct, hApart, hErase⟩ := h.split hNodup hp
  rw [hErase]
  have hEvery : (X ++ Y ++ [p]).Perm nodes := by
    apply List.Perm.trans _ h.every
    rw [List.append_assoc]
    exact (List.perm_append_singleton p Y).append_left X
  apply Linked.ring _ hEvery
  by_cases hY : Y = []
  · subst hY
    obtain rfl : p = c.tail := Option.some.inj (List.getLast?_concat.symm.trans h.linked.last)
    rw [demote_tail, List.append_nil]
    exact h.linked
  · by_cases hX : X = []
    · subst hX
      obtain rfl : p = c.head := Option.some.inj h.linked.first
      have hLast := h.linked.last
      rw [List.nil_append, List.getLast?_cons_of_ne_nil hY] at hLast
      have hTail : c.head ≠ c.tail :=
        (ne_of_mem_of_not_mem (List.mem_of_getLast? hLast) (List.nodup_cons.mp hDistinct).1).symm
      have hNext : c.prev (c.next c.head) = c.head := by
        have hChain := h.linked.chain
        rw [List.nil_append, List.cons_append, List.isChain_cons, List.head?_append_of_ne_nil Y hY]
          at hChain
        have hJoined := hChain.1 _ (List.head?_eq_some_head hY)
        rw [hJoined.1]
        exact hJoined.2
      rw [demote_head hTail hNext h.backClosed h.closed]
      exact h.linked.rotateBack hY
    · have hMiddle := (h.linked.between hX hY).middle hDistinct
      exact absurd hEnd (not_or.mpr ⟨hMiddle.notHead, hMiddle.notTail⟩)

/-- A bucket in the middle is demoted behind a tail that the head still points back to. -/
theorem Ring.demote_middle (h : c.Ring nodes o) (hNodup : nodes.Nodup) (hp : p ∈ nodes)
    (hEnd : ¬ (p = c.head ∨ p = c.tail)) (o' : List Int) : ¬ (c.demote p).Ring nodes o' := by
  obtain ⟨hHead, hTail⟩ := not_or.mp hEnd
  obtain ⟨X, Y, rfl, hDistinct, -, -⟩ := h.split hNodup hp
  have hX : X ≠ [] := by
    rintro rfl
    exact hHead (Option.some.inj h.linked.first)
  have hY : Y ≠ [] := by
    rintro rfl
    exact hTail (Option.some.inj (List.getLast?_concat.symm.trans h.linked.last))
  have hMiddle := (h.linked.between hX hY).middle hDistinct
  intro hRing
  have hBack := hRing.backClosed
  simp [demote, hHead, hTail, hMiddle.notHead.symm, hMiddle.prevSelf, hMiddle.nextHead,
    h.backClosed] at hBack
  exact hTail hBack.symm

theorem Ring.demote_iff (h : c.Ring nodes o) (hNodup : nodes.Nodup) (hp : p ∈ nodes) :
    (c.demote p).Ring nodes (o.erase p ++ [p]) ↔ p = c.head ∨ p = c.tail := by
  constructor
  · intro hRing
    by_contra hEnd
    exact h.demote_middle hNodup hp hEnd _ hRing
  · exact h.demote_end hNodup hp

end Links

/-! ## Runs -/

/-- A call to a cache, or a use of its elements by their owners between two calls. -/
inductive CacheCall (nodes : List Int) (β δ : Type) where
  | promote (bucket : { p // p ∈ nodes })
  | demote (bucket : { p // p ∈ nodes })
  | alloc (request : δ)
  | access (entry : Int → β)

namespace CacheCall

variable {nodes : List Int} {β δ : Type} (alloc : δ → Cache β → Option (Cache β))

def step : CacheCall nodes β δ → Cache β → Option (Cache β)
  | promote bucket, s => some { s with links := s.links.promote bucket }
  | demote bucket, s => some { s with links := s.links.demote bucket }
  | .alloc request, s => alloc request s
  | access entry, s => some { s with entry := entry }

/-- What a call has to do with the order of the elements, from any order they are in. -/
def Moves : CacheCall nodes β δ → Cache β → Cache β → Prop
  | promote bucket, s, s' => s'.entry = s.entry ∧
      ∀ o, s.links.Ring nodes o → s'.links.Ring nodes (bucket :: o.erase bucket)
  | demote bucket, s, s' => s'.entry = s.entry ∧
      ∀ o, s.links.Ring nodes o → s'.links.Ring nodes (o.erase bucket ++ [bucket.1])
  | .alloc _, _, _ => True
  | access _, s, s' => s'.links = s.links

/-- Every state of the run is a ring, and every call moves no more than its element. -/
def RunRight : List (CacheCall nodes β δ) → Cache β → Prop
  | [], s => ∃ o, s.links.Ring nodes o
  | call :: calls, s => (∃ o, s.links.Ring nodes o) ∧
      ∃ s', call.step alloc s = some s' ∧ call.Moves s s' ∧ RunRight calls s'

/-- An element is demoted only where it is the head or the tail. -/
def DemotesEnd : CacheCall nodes β δ → Cache β → Prop
  | demote bucket, s => bucket = s.links.head ∨ bucket = s.links.tail
  | _, _ => True

def DemoteEnds : List (CacheCall nodes β δ) → Cache β → Prop
  | [], _ => True
  | call :: calls, s => call.DemotesEnd s ∧
      ∀ s', call.step alloc s = some s' → DemoteEnds calls s'

/-- The state that an allocation needs to find the ring in. -/
def Holds (nodes : List Int) (s : Cache β) : Prop :=
  s.number = nodes.length ∧ ∃ o, s.links.Ring nodes o

variable {alloc} {s s' : Cache β}

theorem holds_step (hNodup : nodes.Nodup)
    (hAlloc : ∀ request s, Holds nodes s → ∃ s', alloc request s = some s' ∧ Holds nodes s')
    (hs : Holds nodes s) (call : CacheCall nodes β δ) (hEnd : call.DemotesEnd s) :
    ∃ s', call.step alloc s = some s' ∧ call.Moves s s' ∧ Holds nodes s' := by
  obtain ⟨hNumber, o, hRing⟩ := hs
  cases call with
  | promote bucket =>
    have hMoved := fun o (h : s.links.Ring nodes o) => h.promote hNodup bucket.2
    exact ⟨_, rfl, ⟨rfl, hMoved⟩, hNumber, _, hMoved o hRing⟩
  | demote bucket =>
    have hMoved := fun o (h : s.links.Ring nodes o) => h.demote_end hNodup bucket.2 hEnd
    exact ⟨_, rfl, ⟨rfl, hMoved⟩, hNumber, _, hMoved o hRing⟩
  | alloc request =>
    obtain ⟨s', hStep, hs'⟩ := hAlloc request s ⟨hNumber, o, hRing⟩
    exact ⟨s', hStep, trivial, hs'⟩
  | access entry => exact ⟨_, rfl, rfl, hNumber, o, hRing⟩

theorem moves_demotesEnd (hNodup : nodes.Nodup) (hs : Holds nodes s) (call : CacheCall nodes β δ)
    (hStep : call.step alloc s = some s') (hMoves : call.Moves s s') : call.DemotesEnd s := by
  obtain ⟨-, o, hRing⟩ := hs
  cases call with
  | demote bucket =>
    cases hStep
    exact (hRing.demote_iff hNodup bucket.2).mp (hMoves.2 o hRing)
  | promote _ => trivial
  | alloc _ => trivial
  | access _ => trivial

theorem runRight_iff (hNodup : nodes.Nodup)
    (hAlloc : ∀ request s, Holds nodes s → ∃ s', alloc request s = some s' ∧ Holds nodes s')
    (hs : Holds nodes s) (calls : List (CacheCall nodes β δ)) :
    RunRight alloc calls s ↔ DemoteEnds alloc calls s := by
  induction calls generalizing s with
  | nil => exact iff_of_true hs.2 trivial
  | cons call calls ih =>
    constructor
    · rintro ⟨-, s', hStep, hMoves, hRun⟩
      have hEnd := moves_demotesEnd hNodup hs call hStep hMoves
      constructor
      · exact hEnd
      · intro s'' hStep'
        obtain rfl : s' = s'' := Option.some.inj (hStep.symm.trans hStep')
        obtain ⟨t, hStep'', -, ht⟩ := holds_step hNodup hAlloc hs call hEnd
        obtain rfl : t = s' := Option.some.inj (hStep''.symm.trans hStep)
        exact (ih ht).mp hRun
    · rintro ⟨hEnd, hRun⟩
      obtain ⟨s', hStep, hMoves, hs'⟩ := holds_step hNodup hAlloc hs call hEnd
      exact ⟨hs.2, s', hStep, hMoves, (ih hs').mpr (hRun s' hStep)⟩

end CacheCall

/-! ## Allocations -/

namespace Cache

variable {β : Type} {nodes : List Int} {s : Cache β} {p : Int}

open CacheCall

theorem find_spec (hNodup : nodes.Nodup) (hs : Holds nodes s) (found : β → Bool) :
    ∃ r, s.find found = some r ∧ ∀ p, r = some p → p ∈ nodes := by
  obtain ⟨hNumber, o, hRing⟩ := hs
  refine ⟨o.find? fun p => found (s.entry p), ?_, ?_⟩
  · rw [find, hNumber]
    exact hRing.search_forward _ hNodup
  · intro p hp
    exact hRing.every.mem_iff.mp (List.mem_of_find?_eq_some hp)

theorem tail_mem (hs : Holds nodes s) : s.links.tail ∈ nodes := by
  obtain ⟨-, o, hRing⟩ := hs
  exact hRing.every.mem_iff.mp (List.mem_of_getLast? hRing.last)

theorem holds_setEntry (hs : Holds nodes s) (b : β) : Holds nodes (s.setEntry p b) := hs

theorem holds_promote (hNodup : nodes.Nodup) (hs : Holds nodes s) (hp : p ∈ nodes) :
    Holds nodes { s with links := s.links.promote p } := by
  obtain ⟨hNumber, o, hRing⟩ := hs
  exact ⟨hNumber, _, hRing.promote hNodup hp⟩

theorem promote_links_head (hs : Holds nodes s) (hNodup : nodes.Nodup) (hp : p ∈ nodes) :
    (s.links.promote p).head = p := by
  obtain ⟨-, o, hRing⟩ := hs
  exact (Option.some.inj (hRing.promote hNodup hp).linked.first).symm

theorem holds_demote_head (hNodup : nodes.Nodup) (hs : Holds nodes s) (hp : p ∈ nodes)
    (hHead : s.links.head = p) : Holds nodes { s with links := s.links.demote p } := by
  obtain ⟨hNumber, o, hRing⟩ := hs
  exact ⟨hNumber, _, hRing.demote_end hNodup hp (Or.inl hHead.symm)⟩

end Cache

namespace BtreeCache

variable {κ : Type} {nodes : List Int} {s : BtreeCache κ}

open CacheCall Cache

/-- A free bucket is promoted to the head. -/
theorem findEmptyBucket_spec (f : Option (NodeFile κ)) (hNodup : nodes.Nodup) (hs : Holds nodes s) :
    Holds nodes (findEmptyBucket f s).2 ∧ ∀ p, (findEmptyBucket f s).1 = some p →
      p ∈ nodes ∧ (findEmptyBucket f s).2.links.head = p := by
  have hMem := tail_mem hs
  have hPromoted := holds_promote hNodup hs hMem
  have hHead := promote_links_head hs hNodup hMem
  have hRight (b : BtreeBucket κ) :
      Holds nodes (promoteBucket (s.setEntry s.links.tail b) s.links.tail) := hPromoted
  unfold findEmptyBucket
  dsimp only
  split
  · split
    · exact ⟨hs, nofun⟩
    · refine ⟨hPromoted, ?_⟩
      rintro _ ⟨⟩
      exact ⟨hMem, hHead⟩
  · split
    · split
      · refine ⟨hRight _, ?_⟩
        rintro _ ⟨⟩
        exact ⟨hMem, hHead⟩
      · exact ⟨hs, nofun⟩
    · split
      · exact ⟨hs, nofun⟩
      · refine ⟨hPromoted, ?_⟩
        rintro _ ⟨⟩
        exact ⟨hMem, hHead⟩

theorem allocBucket_holds (f : Option (NodeFile κ)) (address : FAU) (load : Int)
    (hNodup : nodes.Nodup) (hs : Holds nodes s) :
    ∃ r, allocBucket f address load s = some r ∧ Holds nodes r.2 := by
  obtain ⟨found, hFind, hFound⟩ := find_spec hNodup hs fun b => b.nodeAddress = address
  obtain ⟨hEmpty, hHead⟩ := findEmptyBucket_spec f hNodup hs
  unfold allocBucket findBucket
  split
  · exact ⟨_, rfl, hs⟩
  · rw [hFind]
    cases found with
    | some p => exact ⟨_, rfl, holds_promote hNodup hs (hFound p rfl)⟩
    | none =>
      generalize findEmptyBucket f s = r at hEmpty hHead ⊢
      obtain ⟨p, s'⟩ := r
      cases p with
      | none => exact ⟨_, rfl, hEmpty⟩
      | some p =>
        obtain ⟨hMem, hHead⟩ := hHead p rfl
        have hDemoted (b : BtreeBucket κ) : Holds nodes (demoteBucket (s'.setEntry p b) p) :=
          holds_demote_head hNodup (holds_setEntry hEmpty b) hMem hHead
        dsimp only
        split
        · cases f with
          | none => exact ⟨_, rfl, hDemoted _⟩
          | some f =>
            dsimp only
            split
            · exact ⟨_, rfl, hEmpty⟩
            · exact ⟨_, rfl, hDemoted _⟩
        · exact ⟨_, rfl, hEmpty⟩

end BtreeCache

namespace DatabaseCache

variable {nodes : List Int} {s : DatabaseCache}

open CacheCall Cache

theorem findEmptySegment_spec (f : Option SegmentFile) (hNodup : nodes.Nodup) (hs : Holds nodes s) :
    ∃ r, findEmptySegment f s = some r ∧ Holds nodes r.2 ∧
      ∀ p, r.1 = some p → p ∈ nodes ∧ r.2.links.head = p := by
  have hMem := tail_mem hs
  have hSearch : ∃ r, Links.search (fun p => !(s.entry p).isDirty) s.links.prev s.links.tail s.number
      s.links.tail = some r ∧ ∀ p, r = some p → p ∈ nodes := by
    obtain ⟨hNumber, o, hRing⟩ := hs
    rw [hNumber, hRing.search_backward _ hNodup]
    refine ⟨_, rfl, fun p hp => hRing.every.mem_iff.mp ?_⟩
    exact List.mem_reverse.mp (List.mem_of_find?_eq_some hp)
  obtain ⟨found, hSearch, hFound⟩ := hSearch
  unfold findEmptySegment
  rw [hSearch]
  cases found with
  | some p =>
    have hp := hFound p rfl
    refine ⟨_, rfl, holds_promote hNodup hs hp, ?_⟩
    rintro _ ⟨⟩
    exact ⟨hp, promote_links_head hs hNodup hp⟩
  | none =>
    dsimp only
    split
    · refine ⟨_, rfl, holds_promote hNodup (holds_setEntry hs _) hMem, ?_⟩
      rintro _ ⟨⟩
      exact ⟨hMem, promote_links_head hs hNodup hMem⟩
    · exact ⟨_, rfl, hs, nofun⟩

theorem allocSegment_holds (f : Option SegmentFile) (address : FAU) (bytes : Nat)
    (hNodup : nodes.Nodup) (hs : Holds nodes s) :
    ∃ r, allocSegment f address bytes s = some r ∧ Holds nodes r.2 := by
  obtain ⟨found, hFind, hFound⟩ := find_spec hNodup hs fun b => b.dsAddress = address
  obtain ⟨⟨p, s'⟩, hSegment, hEmpty, hHead⟩ := findEmptySegment_spec f hNodup hs
  unfold allocSegment findSegment
  split
  · exact ⟨_, rfl, hs⟩
  · rw [hFind]
    cases found with
    | some p => exact ⟨_, rfl, holds_promote hNodup hs (hFound p rfl)⟩
    | none =>
      dsimp only
      rw [hSegment]
      cases p with
      | none => exact ⟨_, rfl, hEmpty⟩
      | some p =>
        obtain ⟨hMem, hHead⟩ := hHead p rfl
        dsimp only
        split
        · split
          · exact ⟨_, rfl, hEmpty⟩
          · exact ⟨_, rfl, holds_demote_head hNodup (holds_setEntry hEmpty _) hMem hHead⟩
        · exact ⟨_, rfl, hEmpty⟩

end DatabaseCache

/-! ## Construction -/

/-- The first `n` elements point to the places before and after them. -/
def InLine (size n : Nat) (c : Links Int) : Prop :=
  ∀ i < n, c.next (i * size) = i * size + size ∧ c.prev (i * size) = i * size - size

section Line

variable {size n number : Nat} {c memory : Links Int} {t : Int}

theorem offset_inj (hSize : 0 < size) {i j : Nat} : (i * size : Int) = j * size ↔ i = j := by
  have hSize : (size : Int) ≠ 0 := by omega
  rw [Int.mul_eq_mul_right_iff hSize, Int.natCast_inj]

theorem bucketArray_nodup (hSize : 0 < size) : (bucketArray size number).Nodup := by
  apply List.Nodup.map _ List.nodup_range
  intro i j h
  exact (offset_inj hSize).mp h

theorem bucketArray_length : (bucketArray size number).length = bucketCount number := by
  rw [bucketArray, List.length_map, List.length_range]

theorem bucketCount_pos (number : Nat) : 0 < bucketCount number := by
  unfold bucketCount
  split <;> omega

theorem inLine_succ (hSize : 0 < size) (h : InLine size n c) :
    InLine size (n + 1) ((c.setPrev (n * size) (n * size - size)).setNext (n * size)
      (n * size + size)) := by
  intro i hi
  by_cases hLast : i = n
  · subst hLast
    simp
  · have hOther : (i * size : Int) ≠ n * size := fun hEq => hLast ((offset_inj hSize).mp hEq)
    simp [hOther, h i (by omega)]

/-- The line is closed to a ring by the last two assignments. -/
theorem ring_of_inLine (hSize : 0 < size) (h : InLine size (bucketCount number) c)
    (ht : t = ((bucketCount number - 1 : Nat) * size : Int)) :
    (Links.mk (Function.update c.next t 0) (Function.update c.prev 0 t) 0 t).Ring
      (bucketArray size number) (bucketArray size number) := by
  have hPos := bucketCount_pos number
  have hLength : (bucketArray size number).length = bucketCount number := bucketArray_length
  have hGet (i : Nat) (hi : i < (bucketArray size number).length) :
      (bucketArray size number)[i] = (i * size : Int) := by
    simp [bucketArray]
  apply Links.Linked.ring _ (List.Perm.refl _)
  have hLast : (bucketArray size number).getLast? = some t := by
    rw [List.getLast?_eq_getElem?, List.getElem?_eq_getElem (by omega), hGet, hLength, ht]
  constructor
  · rw [List.head?_eq_getElem?, List.getElem?_eq_getElem (by omega), hGet]
    simp
  · exact hLast
  · rw [Links.isChain_closed_iff hLast, List.isChain_iff_getElem]
    constructor
    · intro i hi
      rw [hLength] at hi
      have hNotLast : (i * size : Int) ≠ t := by
        rw [ht]
        exact fun hEq => absurd ((offset_inj hSize).mp hEq) (by omega)
      have hNotFirst : ((i + 1 : Nat) * size : Int) ≠ 0 := by
        have hEq := (offset_inj (i := i + 1) (j := 0) hSize).not.mpr (by omega)
        rwa [Int.natCast_zero, Int.zero_mul] at hEq
      rw [hGet, hGet]
      constructor
      · change Function.update c.next t 0 _ = _
        rw [Function.update_of_ne hNotLast, (h i (by omega)).1, Int.natCast_succ, Int.add_mul, Int.one_mul]
      · change Function.update c.prev 0 t _ = _
        rw [Function.update_of_ne hNotFirst, (h (i + 1) hi).2, Int.natCast_succ, Int.add_mul, Int.one_mul,
          Int.add_sub_cancel]
    · constructor
      · exact Function.update_self t 0 c.next
      · exact Function.update_self 0 t c.prev

theorem BtreeCache.linkBuckets_inLine (hSize : 0 < size) (hFits : (n - 1) * size < 2 ^ 32) :
    InLine size n (BtreeCache.linkBuckets size memory n) := by
  induction n with
  | zero => exact nofun
  | succ n ih =>
    rw [Nat.add_sub_cancel] at hFits
    have hBefore : (n - 1) * size < 2 ^ 32 :=
      Nat.lt_of_le_of_lt (Nat.mul_le_mul_right size (Nat.sub_le n 1)) hFits
    rw [BtreeCache.linkBuckets, Nat.mod_eq_of_lt hFits, Int.natCast_mul]
    exact inLine_succ hSize (ih hBefore)

theorem DatabaseCache.linkSegments_inLine (hSize : 0 < size) :
    InLine size n (DatabaseCache.linkSegments size memory n).1 ∧
      (DatabaseCache.linkSegments size memory n).2 = n * size := by
  induction n with
  | zero =>
    constructor
    · exact nofun
    · simp [DatabaseCache.linkSegments]
  | succ n ih =>
    obtain ⟨ih, hAt⟩ := ih
    simp only [DatabaseCache.linkSegments, hAt]
    constructor
    · exact inLine_succ hSize ih
    · rw [Links.setNext_next, Function.update_self, Int.natCast_succ, Int.add_mul, Int.one_mul]

theorem last_offset (hFits : (bucketCount number - 1) * size < 2 ^ 32) :
    ((((bucketCount number - 1) * size % 2 ^ 32 : Nat)) : Int) =
      ((bucketCount number - 1 : Nat) * size : Int) := by
  rw [Nat.mod_eq_of_lt hFits, Int.natCast_mul]

theorem BtreeCache.constructCache_holds {κ : Type} (hSize : 0 < size)
    (hFits : (bucketCount number - 1) * size < 2 ^ 32) :
    CacheCall.Holds (bucketArray size number)
      (BtreeCache.constructCache size memory number : BtreeCache κ) := by
  constructor
  · exact bucketArray_length.symm
  · exact ⟨_, ring_of_inLine hSize (linkBuckets_inLine hSize hFits) (last_offset hFits)⟩

theorem DatabaseCache.constructCache_holds (hSize : 0 < size)
    (hFits : (bucketCount number - 1) * size < 2 ^ 32) :
    CacheCall.Holds (bucketArray size number) (DatabaseCache.constructCache size memory number) := by
  constructor
  · exact bucketArray_length.symm
  · exact ⟨_, ring_of_inLine hSize (linkSegments_inLine hSize).1 (last_offset hFits)⟩

end Line

/-! ## Both caches -/

abbrev BtreeCacheCall (κ : Type) (nodes : List Int) :=
  CacheCall nodes (BtreeBucket κ) (Option (NodeFile κ) × FAU × Int)

abbrev DatabaseCacheCall (nodes : List Int) :=
  CacheCall nodes DatabaseSegment (Option SegmentFile × FAU × Nat)

/-- `AllocBucket` as a call of a run. -/
def BtreeCache.alloc {κ : Type} (request : Option (NodeFile κ) × FAU × Int) (s : BtreeCache κ) :
    Option (BtreeCache κ) :=
  (BtreeCache.allocBucket request.1 request.2.1 request.2.2 s).map Prod.snd

/-- `AllocSegment` as a call of a run. -/
def DatabaseCache.alloc (request : Option SegmentFile × FAU × Nat) (s : DatabaseCache) :
    Option DatabaseCache :=
  (DatabaseCache.allocSegment request.1 request.2.1 request.2.2 s).map Prod.snd

section Rings

variable {size : Nat} {nodes : List Int}

theorem BtreeCache.alloc_holds {κ : Type} (hNodup : nodes.Nodup)
    (request : Option (NodeFile κ) × FAU × Int) (s : BtreeCache κ) (hs : CacheCall.Holds nodes s) :
    ∃ s', BtreeCache.alloc request s = some s' ∧ CacheCall.Holds nodes s' := by
  obtain ⟨r, hStep, hr⟩ := allocBucket_holds request.1 request.2.1 request.2.2 hNodup hs
  rw [alloc, hStep]
  exact ⟨r.2, rfl, hr⟩

theorem DatabaseCache.alloc_holds (hNodup : nodes.Nodup)
    (request : Option SegmentFile × FAU × Nat) (s : DatabaseCache) (hs : CacheCall.Holds nodes s) :
    ∃ s', DatabaseCache.alloc request s = some s' ∧ CacheCall.Holds nodes s' := by
  obtain ⟨r, hStep, hr⟩ := allocSegment_holds request.1 request.2.1 request.2.2 hNodup hs
  rw [alloc, hStep]
  exact ⟨r.2, rfl, hr⟩

/-- With elements of `size` bytes in an array of less than 4 GB, a run of either cache keeps its ring
and moves no more than the promoted and demoted elements exactly if it demotes heads and tails only. -/
theorem cacheRings_iff {κ : Type} (memory : Links Int) (number : Nat) (hSize : 0 < size)
    (hFits : (bucketCount number - 1) * size < 2 ^ 32) :
    (∀ calls : List (BtreeCacheCall κ (bucketArray size number)),
      CacheCall.RunRight BtreeCache.alloc calls (BtreeCache.constructCache size memory number) ↔
        CacheCall.DemoteEnds BtreeCache.alloc calls
          (BtreeCache.constructCache size memory number)) ∧
    (∀ calls : List (DatabaseCacheCall (bucketArray size number)),
      CacheCall.RunRight DatabaseCache.alloc calls
          (DatabaseCache.constructCache size memory number) ↔
        CacheCall.DemoteEnds DatabaseCache.alloc calls
          (DatabaseCache.constructCache size memory number)) := by
  have hNodup : (bucketArray size number).Nodup := bucketArray_nodup hSize
  constructor
  · intro calls
    apply CacheCall.runRight_iff hNodup (BtreeCache.alloc_holds hNodup)
    exact BtreeCache.constructCache_holds hSize hFits
  · intro calls
    apply CacheCall.runRight_iff hNodup (DatabaseCache.alloc_holds hNodup)
    exact DatabaseCache.constructCache_holds hSize hFits

end Rings

/-- Three buckets of 72 bytes: the last one is promoted and demoted again. -/
theorem cacheRings_iff_three :
    CacheCall.RunRight BtreeCache.alloc
      ([.promote ⟨144, by decide⟩, .demote ⟨144, by decide⟩] : List (BtreeCacheCall Int
        (bucketArray 72 3)))
      (BtreeCache.constructCache 72 ⟨fun _ => 0, fun _ => 0, 0, 0⟩ 3) := by
  apply ((cacheRings_iff _ 3 (by decide) (by decide)).1 _).mpr
  refine ⟨trivial, fun s' hStep => ⟨?_, fun _ _ => trivial⟩⟩
  cases hStep
  exact Or.inl (by decide +kernel)

/-- The bucket in the middle is demoted: the tail is bucket 1 and the head still points back to
bucket 2, so that the walk from the tail does not return to it. -/
theorem demoteBucket_breaks :
    ¬ CacheCall.RunRight BtreeCache.alloc
      ([.demote ⟨72, by decide⟩] : List (BtreeCacheCall Int (bucketArray 72 3)))
      (BtreeCache.constructCache 72 ⟨fun _ => 0, fun _ => 0, 0, 0⟩ 3) := by
  rintro ⟨-, s', hStep, -, o, hRing⟩
  cases hStep
  have hBack := hRing.backClosed
  revert hBack
  decide +kernel

end DataReel
