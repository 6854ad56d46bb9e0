import Mathlib.Data.List.Chain
import Mathlib.Data.List.Iterate
import Mathlib.Data.List.Nodup
import Mathlib.Data.List.Perm.Basic
import Mathlib.Logic.Function.Basic

/-! # Circular doubly linked lists

Nodes point to one another by `next` and `prev`, and two pointers name the first and the last of
them. The nodes form a ring in an order if the walks from both ends go through that order.
-/

namespace DataReel

structure Links (α : Type) where
  next : α → α
  prev : α → α
  head : α
  tail : α

namespace Links

section Assignments

variable {α : Type} [DecidableEq α]

def setNext (c : Links α) (x y : α) : Links α := { c with next := Function.update c.next x y }

def setPrev (c : Links α) (x y : α) : Links α := { c with prev := Function.update c.prev x y }

variable (c : Links α) (x y : α)

@[simp] theorem setNext_next : (c.setNext x y).next = Function.update c.next x y := rfl
@[simp] theorem setNext_prev : (c.setNext x y).prev = c.prev := rfl
@[simp] theorem setNext_head : (c.setNext x y).head = c.head := rfl
@[simp] theorem setNext_tail : (c.setNext x y).tail = c.tail := rfl
@[simp] theorem setPrev_next : (c.setPrev x y).next = c.next := rfl
@[simp] theorem setPrev_prev : (c.setPrev x y).prev = Function.update c.prev x y := rfl
@[simp] theorem setPrev_head : (c.setPrev x y).head = c.head := rfl
@[simp] theorem setPrev_tail : (c.setPrev x y).tail = c.tail := rfl

@[simp] theorem setNext_same : c.setNext x (c.next x) = c := by
  simp [setNext]

@[simp] theorem setPrev_same : c.setPrev x (c.prev x) = c := by
  simp [setPrev]

end Assignments

variable {α : Type}

/-- Following `next` from the head visits the nodes in the order `o`, ends at the tail and returns to
the head, and following `prev` from the tail visits them in reverse and returns to the tail. -/
structure Ring (c : Links α) (nodes o : List α) : Prop where
  every : o.Perm nodes
  forward : List.iterate c.next c.head nodes.length = o
  last : o.getLast? = some c.tail
  closed : c.next c.tail = c.head
  backward : List.iterate c.prev c.tail nodes.length = o.reverse
  backClosed : c.prev c.head = c.tail

/-- Two nodes that point to one another. -/
def Joined (c : Links α) (a b : α) : Prop := c.next a = b ∧ c.prev b = a

/-- The same order as one chain from the head around to the head. -/
structure Linked (c : Links α) (o : List α) : Prop where
  first : o.head? = some c.head
  last : o.getLast? = some c.tail
  chain : (o ++ [c.head]).IsChain c.Joined

variable {c c' : Links α} {nodes o X Y : List α} {f : α → α} {a i stop : α}

theorem isChain_iterate (f : α → α) (a : α) (n : Nat) :
    (List.iterate f a n).IsChain fun a b => f a = b := by
  induction n generalizing a with
  | zero => exact List.isChain_nil
  | succ n ih =>
    cases n with
    | zero => exact List.isChain_singleton a
    | succ n => exact List.isChain_cons_cons.mpr ⟨rfl, ih (f a)⟩

theorem iterate_of_isChain (h : (a :: X).IsChain fun a b => f a = b) :
    List.iterate f a (X.length + 1) = a :: X := by
  induction X generalizing a with
  | nil => rfl
  | cons b X ih =>
    obtain ⟨hStep, h⟩ := List.isChain_cons_cons.mp h
    change a :: List.iterate f (f a) (X.length + 1) = a :: b :: X
    rw [hStep, ih h]

theorem head?_iterate (f : α → α) (a : α) {n : Nat} (h : n ≠ 0) :
    (List.iterate f a n).head? = some a := by
  obtain ⟨n, rfl⟩ := Nat.exists_eq_succ_of_ne_zero h
  rfl

theorem iterate_of_head? (hFirst : o.head? = some a) (h : o.IsChain fun a b => f a = b) :
    List.iterate f a o.length = o := by
  cases o with
  | nil => cases hFirst
  | cons b o =>
    obtain rfl : b = a := Option.some.inj hFirst
    exact iterate_of_isChain h

theorem isChain_joined_iff : o.IsChain c.Joined ↔
    (o.IsChain fun a b => c.next a = b) ∧ o.IsChain fun a b => c.prev b = a := by
  simp only [List.isChain_iff_getElem, Joined]
  constructor
  · intro h
    exact ⟨fun k hk => (h k hk).1, fun k hk => (h k hk).2⟩
  · rintro ⟨hNext, hPrev⟩ k hk
    exact ⟨hNext k hk, hPrev k hk⟩

theorem isChain_closed_iff {R : α → α → Prop} (h : o.getLast? = some a) :
    (o ++ [i]).IsChain R ↔ o.IsChain R ∧ R a i := by
  rw [List.isChain_append, h]
  simp

theorem Ring.linked (h : c.Ring nodes o) : c.Linked o := by
  have hLength := h.every.length_eq
  have hNodes : nodes.length ≠ 0 := by
    intro hNil
    have hLast := h.last
    rw [List.length_eq_zero_iff.mp (hLength.trans hNil)] at hLast
    cases hLast
  constructor
  · rw [← h.forward]
    exact head?_iterate c.next c.head hNodes
  · exact h.last
  · rw [isChain_closed_iff h.last, isChain_joined_iff]
    constructor
    · constructor
      · rw [← h.forward]
        exact isChain_iterate c.next c.head nodes.length
      · have hBack := isChain_iterate c.prev c.tail nodes.length
        rw [h.backward, List.isChain_reverse] at hBack
        exact hBack
    · exact ⟨h.closed, h.backClosed⟩

theorem Linked.ring (h : c.Linked o) (hEvery : o.Perm nodes) : c.Ring nodes o := by
  obtain ⟨hChain, hClosed⟩ := (isChain_closed_iff h.last).mp h.chain
  obtain ⟨hNext, hPrev⟩ := isChain_joined_iff.mp hChain
  constructor
  · exact hEvery
  · rw [← hEvery.length_eq]
    exact iterate_of_head? h.first hNext
  · exact h.last
  · exact hClosed.1
  · rw [← hEvery.length_eq, ← List.length_reverse]
    apply iterate_of_head?
    · rw [List.head?_reverse]
      exact h.last
    · exact List.isChain_reverse.mpr hPrev
  · exact hClosed.2

theorem ring_iff : c.Ring nodes o ↔ o.Perm nodes ∧ c.Linked o :=
  ⟨fun h => ⟨h.every, h.linked⟩, fun h => h.2.ring h.1⟩

/-! ## Changes of pointers -/

/-- A chain keeps if `next` of all but its last and `prev` of all but its first node do. -/
theorem isChain_frame (h : X.IsChain c.Joined) (hNext : ∀ x ∈ X.dropLast, c'.next x = c.next x)
    (hPrev : ∀ x ∈ X.tail, c'.prev x = c.prev x) : X.IsChain c'.Joined := by
  rw [List.isChain_iff_getElem] at h ⊢
  intro k hk
  obtain ⟨hStep, hBack⟩ := h k hk
  constructor
  · rw [hNext, hStep]
    rw [← List.getElem_dropLast (by simp; omega)]
    exact List.getElem_mem _
  · rw [hPrev, hBack]
    rw [← List.getElem_tail (by simp; omega)]
    exact List.getElem_mem _

theorem ne_last_of_mem_dropLast (hNodup : X.Nodup) (hLast : X.getLast? = some a)
    (hi : i ∈ X.dropLast) : i ≠ a := by
  have hSplit := List.dropLast_append_getLast? a hLast
  rw [← hSplit] at hNodup
  rintro rfl
  exact (List.nodup_append.mp hNodup).2.2 i hi i List.mem_cons_self rfl

theorem ne_first_of_mem_tail (hNodup : X.Nodup) (hFirst : X.head? = some a) (hi : i ∈ X.tail) :
    i ≠ a := by
  cases X with
  | nil => cases hFirst
  | cons b X =>
    obtain rfl : b = a := Option.some.inj hFirst
    rintro rfl
    exact (List.nodup_cons.mp hNodup).1 hi

/-- The last node becomes the first one with no pointer between nodes changed. -/
theorem Linked.rotate (h : c.Linked (X ++ [i])) (hX : X ≠ []) :
    ({ c with head := i, tail := c.prev i } : Links α).Linked (i :: X) := by
  have hChain := h.chain
  rw [List.append_assoc, List.singleton_append, List.isChain_append] at hChain
  obtain ⟨hChain, hEnd, hSeam⟩ := hChain
  have hLast : X.getLast? = some (c.prev i) := by
    rw [List.getLast?_eq_some_getLast hX]
    exact congrArg some (hSeam _ (List.getLast?_eq_some_getLast hX) i rfl).2.symm
  have hFirst : X.head? = some c.head := by
    rw [← h.first, List.head?_append_of_ne_nil X hX]
  constructor
  · rfl
  · rw [List.getLast?_cons, hLast]
    rfl
  · rw [List.cons_append, List.isChain_cons]
    constructor
    · intro b hb
      rw [List.head?_append_of_ne_nil X hX, hFirst] at hb
      obtain rfl := Option.some.inj hb
      exact (List.isChain_cons_cons.mp hEnd).1
    · exact (isChain_closed_iff hLast).mpr ⟨hChain, hSeam _ hLast i rfl⟩

/-- The first node becomes the last one with no pointer between nodes changed. -/
theorem Linked.rotateBack (h : c.Linked (i :: X)) (hX : X ≠ []) :
    ({ c with head := c.next i, tail := i } : Links α).Linked (X ++ [i]) := by
  obtain rfl : i = c.head := Option.some.inj h.first
  have hChain := h.chain
  rw [List.cons_append, List.isChain_cons, List.head?_append_of_ne_nil X hX] at hChain
  obtain ⟨hSeam, hChain⟩ := hChain
  have hHead : X.head? = some (c.next c.head) := by
    rw [List.head?_eq_some_head hX]
    exact congrArg some (hSeam _ (List.head?_eq_some_head hX)).1.symm
  constructor
  · rw [List.head?_append_of_ne_nil X hX, hHead]
  · exact List.getLast?_concat
  · rw [isChain_closed_iff List.getLast?_concat]
    constructor
    · exact hChain
    · exact hSeam _ hHead

/-- The pointers after a node has been taken out and linked in between the tail and the head. -/
structure Spliced (c c' : Links α) (i : α) : Prop where
  next_before : c'.next (c.prev i) = c.next i
  prev_after : c'.prev (c.next i) = c.prev i
  next_self : c'.next i = c.head
  prev_self : c'.prev i = c.tail
  next_tail : c'.next c.tail = i
  prev_head : c'.prev c.head = i
  next_frame : ∀ x, x ≠ c.prev i → x ≠ i → x ≠ c.tail → c'.next x = c.next x
  prev_frame : ∀ x, x ≠ c.next i → x ≠ i → x ≠ c.head → c'.prev x = c.prev x

/-- The nodes beside one in the middle. -/
structure Between (c : Links α) (X : List α) (i : α) (Y : List α) : Prop where
  front : X.head? = some c.head
  before : X.getLast? = some (c.prev i)
  after : Y.head? = some (c.next i)
  back : Y.getLast? = some c.tail
  chainFront : X.IsChain c.Joined
  chainBack : Y.IsChain c.Joined

theorem Linked.between (h : c.Linked (X ++ i :: Y)) (hX : X ≠ []) (hY : Y ≠ []) : c.Between X i Y := by
  have hLast : Y.getLast? = some c.tail := by
    have := h.last
    rwa [List.getLast?_append_of_ne_nil X (List.cons_ne_nil i Y), List.getLast?_cons_of_ne_nil hY] at this
  obtain ⟨hChain, -⟩ := (isChain_closed_iff h.last).mp h.chain
  obtain ⟨hFront, hBack, hSeam⟩ := List.isChain_append.mp hChain
  obtain ⟨hAfter, hBack⟩ := List.isChain_cons.mp hBack
  constructor
  · rw [← h.first, List.head?_append_of_ne_nil X hX]
  · rw [List.getLast?_eq_some_getLast hX]
    exact congrArg some (hSeam _ (List.getLast?_eq_some_getLast hX) i rfl).2.symm
  · rw [List.head?_eq_some_head hY]
    exact congrArg some (hAfter _ (List.head?_eq_some_head hY)).1.symm
  · exact hLast
  · exact hFront
  · exact hBack

theorem Between.linked_spliced (h : c.Between X i Y) (hNodup : (X ++ i :: Y).Nodup)
    (hs : Spliced c c' i) : (i :: (X ++ Y) ++ [i]).IsChain c'.Joined := by
  obtain ⟨hX, hNodupY, hApart⟩ := List.nodup_append.mp hNodup
  obtain ⟨hiY, hY⟩ := List.nodup_cons.mp hNodupY
  have hiX : i ∉ X := fun hi => hApart i hi i List.mem_cons_self rfl
  have hXY : ∀ x ∈ X, x ∉ Y := fun x hx hy => hApart x hx x (List.mem_cons_of_mem i hy) rfl
  have hFront := List.mem_of_mem_head? h.front
  have hBefore := List.mem_of_getLast? h.before
  have hAfter := List.mem_of_mem_head? h.after
  have hBack := List.mem_of_getLast? h.back
  have hChainX : X.IsChain c'.Joined := by
    apply isChain_frame h.chainFront
    · intro x hx
      have hMem := List.dropLast_subset X hx
      apply hs.next_frame
      · exact ne_last_of_mem_dropLast hX h.before hx
      · rintro rfl
        exact hiX hMem
      · rintro rfl
        exact hXY _ hMem hBack
    · intro x hx
      have hMem := List.mem_of_mem_tail hx
      apply hs.prev_frame
      · rintro rfl
        exact hXY _ hMem hAfter
      · rintro rfl
        exact hiX hMem
      · exact ne_first_of_mem_tail hX h.front hx
  have hChainY : Y.IsChain c'.Joined := by
    apply isChain_frame h.chainBack
    · intro x hx
      have hMem := List.dropLast_subset Y hx
      apply hs.next_frame
      · rintro rfl
        exact hXY _ hBefore hMem
      · rintro rfl
        exact hiY hMem
      · exact ne_last_of_mem_dropLast hY h.back hx
    · intro x hx
      have hMem := List.mem_of_mem_tail hx
      apply hs.prev_frame
      · exact ne_first_of_mem_tail hY h.after hx
      · rintro rfl
        exact hiY hMem
      · rintro rfl
        exact hXY _ hFront hMem
  have hLast : (i :: (X ++ Y)).getLast? = some c.tail := by
    rw [← List.cons_append, List.getLast?_append, h.back]
    rfl
  rw [isChain_closed_iff hLast, List.isChain_cons, List.head?_append, h.front, List.isChain_append,
    h.before, h.after]
  constructor
  · constructor
    · rintro _ ⟨⟩
      exact ⟨hs.next_self, hs.prev_head⟩
    · refine ⟨hChainX, hChainY, ?_⟩
      rintro _ ⟨⟩ _ ⟨⟩
      exact ⟨hs.next_before, hs.prev_after⟩
  · exact ⟨hs.next_tail, hs.prev_self⟩

/-- The node linked in between the tail and the head becomes the head. -/
theorem Between.spliced_front (h : c.Between X i Y) (hNodup : (X ++ i :: Y).Nodup)
    (hs : Spliced c c' i) (hHead : c'.head = i) (hTail : c'.tail = c.tail) :
    c'.Linked (i :: (X ++ Y)) := by
  constructor
  · rw [hHead]
    rfl
  · rw [← List.cons_append, List.getLast?_append, h.back, hTail]
    rfl
  · rw [hHead]
    exact h.linked_spliced hNodup hs

/-! ## A search around the ring -/

/-- The search goes from `a` by `f` until it finds a node or comes to `stop`; the outer `none` is a
search that has not ended after the given number of nodes. -/
def search (found : α → Bool) (f : α → α) (stop : α) [DecidableEq α] : Nat → α → Option (Option α)
  | 0, _ => none
  | n + 1, a =>
    if found a then some (some a)
    else if f a = stop then some none
    else search found f stop n (f a)

theorem search_of_isChain [DecidableEq α] (found : α → Bool)
    (h : (a :: X ++ [stop]).IsChain fun a b => f a = b) (hStop : stop ∉ X) :
    search found f stop (X.length + 1) a = some ((a :: X).find? found) := by
  induction X generalizing a with
  | nil =>
    obtain ⟨hStep, -⟩ := List.isChain_cons_cons.mp h
    rw [List.length_nil, search, List.find?_cons, hStep, if_pos rfl]
    cases found a <;> rfl
  | cons b X ih =>
    rw [List.cons_append, List.cons_append, List.isChain_cons_cons] at h
    obtain ⟨hStep, h⟩ := h
    obtain ⟨hb, hStop⟩ := not_or.mp (List.mem_cons.not.mp hStop)
    rw [List.length_cons, search, List.find?_cons, hStep, if_neg (Ne.symm hb), ih h hStop]
    cases found a <;> rfl

/-- Forward from the head the search tells the first node of the order. -/
theorem Ring.search_forward [DecidableEq α] (found : α → Bool) (h : c.Ring nodes o)
    (hNodup : nodes.Nodup) : search found c.next c.head nodes.length c.head = some (o.find? found) := by
  have hLinked := h.linked
  have hDistinct := h.every.nodup_iff.mpr hNodup
  cases o with
  | nil => cases hLinked.first
  | cons a o =>
    obtain rfl : a = c.head := Option.some.inj hLinked.first
    rw [← h.every.length_eq]
    apply search_of_isChain found (isChain_joined_iff.mp hLinked.chain).1
    exact (List.nodup_cons.mp hDistinct).1

/-- Backward from the tail the search tells the last node of the order. -/
theorem Ring.search_backward [DecidableEq α] (found : α → Bool) (h : c.Ring nodes o)
    (hNodup : nodes.Nodup) :
    search found c.prev c.tail nodes.length c.tail = some (o.reverse.find? found) := by
  have hDistinct := List.nodup_reverse.mpr (h.every.nodup_iff.mpr hNodup)
  have hLength : nodes.length = o.reverse.length := by
    rw [List.length_reverse, h.every.length_eq]
  have hChain : (o.reverse ++ [c.tail]).IsChain fun a b => c.prev a = b := by
    obtain ⟨hChain, hSeam⟩ := (isChain_closed_iff h.last).mp h.linked.chain
    have hFirst : o.reverse.getLast? = some c.head := by
      rw [List.getLast?_reverse]
      exact h.linked.first
    rw [isChain_closed_iff hFirst]
    constructor
    · exact List.isChain_reverse.mpr (isChain_joined_iff.mp hChain).2
    · exact hSeam.2
  have hLast : o.reverse.head? = some c.tail := by
    rw [List.head?_reverse]
    exact h.last
  rw [hLength]
  generalize o.reverse = r at hDistinct hChain hLast ⊢
  cases r with
  | nil => cases hLast
  | cons a r =>
    obtain rfl : a = c.tail := Option.some.inj hLast
    apply search_of_isChain found hChain
    exact (List.nodup_cons.mp hDistinct).1

/-! ## A visit of every node -/

variable {σ : Type} [DecidableEq α]

/-- The visit goes from `a` by `f` until a step fails or it comes to `stop`; `none` is a visit that has
not ended after the given number of nodes. -/
def visit (step : α → σ → σ × Bool) (f : α → α) (stop : α) : Nat → α → σ → Option (σ × Bool)
  | 0, _, _ => none
  | n + 1, a, s =>
    match step a s with
    | (s, false) => some (s, false)
    | (s, true) => if f a = stop then some (s, true) else visit step f stop n (f a) s

variable {step : α → σ → σ × Bool} {I : List α → σ → Prop} {s : σ}

theorem visit_of_isChain (hStep : ∀ X a Y s, o = X ++ a :: Y → I X s → ∃ t, step a s = (t, true) ∧ I (X ++ [a]) t)
    (h : (a :: Y ++ [stop]).IsChain fun a b => f a = b) (hStop : stop ∉ Y) (ho : o = X ++ a :: Y) (hs : I X s) :
    ∃ t, visit step f stop (Y.length + 1) a s = some (t, true) ∧ I o t := by
  obtain ⟨t, hTurn, ht⟩ := hStep X a Y s ho hs
  induction Y generalizing X a s t with
  | nil =>
    obtain ⟨hNext, -⟩ := List.isChain_cons_cons.mp h
    refine ⟨t, ?_, ?_⟩
    · rw [List.length_nil, visit, hTurn]
      exact if_pos hNext
    · rw [ho]
      exact ht
  | cons b Y ih =>
    rw [List.cons_append, List.cons_append, List.isChain_cons_cons] at h
    obtain ⟨hNext, h⟩ := h
    obtain ⟨hb, hStop⟩ := not_or.mp (List.mem_cons.not.mp hStop)
    have ho' : o = (X ++ [a]) ++ b :: Y := by
      rw [ho, List.append_assoc, List.singleton_append]
    obtain ⟨u, hTurn', hu⟩ := hStep (X ++ [a]) b Y t ho' ht
    obtain ⟨v, hVisit, hv⟩ := ih h hStop ho' ht u hTurn' hu
    refine ⟨v, ?_, hv⟩
    rw [List.length_cons, visit, hTurn]
    dsimp only
    rw [hNext, if_neg (Ne.symm hb)]
    exact hVisit

/-- What every step of the visit keeps holds at its end. -/
theorem Ring.visit_forward (h : c.Ring nodes o) (hNodup : nodes.Nodup)
    (hStep : ∀ X a Y s, o = X ++ a :: Y → I X s → ∃ t, step a s = (t, true) ∧ I (X ++ [a]) t) (hs : I [] s) :
    ∃ t, visit step c.next c.head nodes.length c.head s = some (t, true) ∧ I o t := by
  have hLinked := h.linked
  have hDistinct := h.every.nodup_iff.mpr hNodup
  cases o with
  | nil => cases hLinked.first
  | cons a o =>
    obtain rfl : a = c.head := Option.some.inj hLinked.first
    rw [← h.every.length_eq]
    have hChain := (isChain_joined_iff.mp hLinked.chain).1
    exact visit_of_isChain hStep hChain (List.nodup_cons.mp hDistinct).1 rfl hs

end Links

end DataReel
