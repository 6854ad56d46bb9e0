import DataReel.Library.Comparison

/-! # Finite sets of keys under a strict comparison

A set is kept as its strictly increasing list, so equal sets are equal lists.
The operations are the ones an ordered index offers.
-/

namespace DataReel

universe u

structure KeySet {α : Type u} (C : Comparison α) where
  keys : List α
  sorted : C.Sorted keys

namespace KeySet

open Comparison

variable {α : Type u} {C : Comparison α}

@[ext] theorem ext {A B : KeySet C} (h : A.keys = B.keys) : A = B := by
  cases A
  cases B
  cases h
  rfl

def empty : KeySet C := ⟨[], sorted_nil⟩

def below (A : KeySet C) (k : α) : List α := A.keys.filter fun a => C.lt a k

def above (A : KeySet C) (k : α) : List α := A.keys.filter fun a => C.lt k a

/-- The stored key that compares equal to `k`. -/
def find (A : KeySet C) (k : α) : Option α := A.keys.find? fun a => C.eqv k a

def first (A : KeySet C) : Option α := A.keys.head?

def last (A : KeySet C) : Option α := A.keys.getLast?

def next (A : KeySet C) (k : α) : Option α := (A.above k).head?

def prev (A : KeySet C) (k : α) : Option α := (A.below k).getLast?

/-- The key after `k`, asked for a key of the set. -/
def following (A : KeySet C) (k : α) : Option α := (A.find k).bind fun _ => A.next k

/-- The key before a key of the set. -/
def preceding (A : KeySet C) (k : α) : Option α := (A.find k).bind fun _ => A.prev k

/-- The least key that is not below `k`. -/
def atLeast (A : KeySet C) (k : α) : Option α := (A.find k).or (A.next k)

theorem put_sorted (hC : C.Strict) (A : KeySet C) (k : α) :
    C.Sorted (A.below k ++ k :: A.above k) := by
  have hBelow : C.Sorted (A.below k) := A.sorted.sublist List.filter_sublist
  have hAbove : C.Sorted (A.above k) := A.sorted.sublist List.filter_sublist
  refine Sorted.put (sorted_append.mpr ⟨hBelow, hAbove, ?_⟩) ?_ ?_
  · intro a ha b hb
    exact hC.lt_trans (List.mem_filter.mp ha).2 (List.mem_filter.mp hb).2
  · exact fun b hb => (List.mem_filter.mp hb).2
  · exact fun b hb => (List.mem_filter.mp hb).2

/-- The set with `k` added; a key equal to `k` gives way to it. -/
def insert (hC : C.Strict) (A : KeySet C) (k : α) : KeySet C :=
  ⟨A.below k ++ k :: A.above k, A.put_sorted hC k⟩

def erase (A : KeySet C) (k : α) : KeySet C :=
  ⟨A.keys.filter fun a => !C.eqv k a, A.sorted.sublist List.filter_sublist⟩

section Split

/-! A search splits the keys into those below and those above the key it looks for. -/

variable {l r : List α} {k : α}

theorem filter_lt_split (hC : C.Strict) (hl : ∀ a ∈ l, C.lt a k = true)
    (hr : ∀ a ∈ r, C.lt k a = true) : (l ++ r).filter (fun a => C.lt a k) = l := by
  rw [List.filter_append, List.filter_eq_self.mpr hl, List.filter_eq_nil_iff.mpr,
    List.append_nil]
  intro a ha
  simp [hC.lt_not_gt (hr a ha)]

theorem filter_gt_split (hC : C.Strict) (hl : ∀ a ∈ l, C.lt a k = true)
    (hr : ∀ a ∈ r, C.lt k a = true) : (l ++ r).filter (fun a => C.lt k a) = r := by
  rw [List.filter_append, List.filter_eq_self.mpr hr, List.filter_eq_nil_iff.mpr,
    List.nil_append]
  intro a ha
  simp [hC.lt_not_gt (hl a ha)]

theorem filter_not_eqv_split (hC : C.Strict) (hl : ∀ a ∈ l, C.lt a k = true)
    (hr : ∀ a ∈ r, C.lt k a = true) : (l ++ r).filter (fun a => !C.eqv k a) = l ++ r := by
  apply List.filter_eq_self.mpr
  intro a ha
  rcases List.mem_append.mp ha with ha | ha
  · simp [hC.gt_not_eqv (hl a ha)]
  · simp [hC.lt_not_eqv (hr a ha)]

theorem find_split (hC : C.Strict) (hl : ∀ a ∈ l, C.lt a k = true)
    (hr : ∀ a ∈ r, C.lt k a = true) : (l ++ r).find? (fun a => C.eqv k a) = none := by
  apply List.find?_eq_none.mpr
  intro a ha
  rcases List.mem_append.mp ha with ha | ha
  · simp [hC.gt_not_eqv (hl a ha)]
  · simp [hC.lt_not_eqv (hr a ha)]

end Split

section Hit

variable {A : KeySet C} {l r : List α} {k x : α}

/-- What the sort order says of the keys around one that compares equal to `k`. -/
theorem around (hC : C.Strict) (hA : A.keys = l ++ x :: r) (hx : C.eqv k x = true) :
    (∀ a ∈ l, C.lt a k = true) ∧ ∀ a ∈ r, C.lt k a = true := by
  have hSorted := hA ▸ A.sorted
  obtain ⟨-, hR, hLR⟩ := sorted_append.mp hSorted
  obtain ⟨hxr, -⟩ := sorted_cons.mp hR
  constructor
  · intro a ha
    exact hC.lt_of_lt_eqv (hLR a ha x List.mem_cons_self) (hC.eqv_symm hx)
  · intro a ha
    exact hC.lt_of_eqv_lt hx (hxr a ha)

theorem find_of_split (hC : C.Strict) (hA : A.keys = l ++ x :: r) (hx : C.eqv k x = true) :
    A.find k = some x := by
  obtain ⟨hl, -⟩ := around hC hA hx
  have hNone : l.find? (fun a => C.eqv k a) = none := by
    apply List.find?_eq_none.mpr
    intro a ha
    simp [hC.gt_not_eqv (hl a ha)]
  rw [find, hA, List.find?_append, hNone, Option.none_or, List.find?_cons_of_pos hx]

theorem erase_of_split (hC : C.Strict) (hA : A.keys = l ++ x :: r) (hx : C.eqv k x = true) :
    (A.erase k).keys = l ++ r := by
  obtain ⟨hl, hr⟩ := around hC hA hx
  have hSplit := filter_not_eqv_split hC hl hr
  rw [List.filter_append] at hSplit
  change A.keys.filter _ = _
  rw [hA, List.filter_append, List.filter_cons_of_neg (by simp [hx])]
  exact hSplit

theorem next_of_split (hC : C.Strict) (hA : A.keys = l ++ x :: r) (hx : C.eqv k x = true) :
    A.next k = r.head? := by
  obtain ⟨hl, hr⟩ := around hC hA hx
  have hSplit := filter_gt_split hC hl hr
  rw [List.filter_append] at hSplit
  rw [next, above, hA, List.filter_append,
    List.filter_cons_of_neg (by simp [hC.eqv_not_lt hx]), hSplit]

theorem prev_of_split (hC : C.Strict) (hA : A.keys = l ++ x :: r) (hx : C.eqv k x = true) :
    A.prev k = l.getLast? := by
  obtain ⟨hl, hr⟩ := around hC hA hx
  have hSplit := filter_lt_split hC hl hr
  rw [List.filter_append] at hSplit
  rw [prev, below, hA, List.filter_append,
    List.filter_cons_of_neg (by simp [hC.eqv_not_gt hx]), hSplit]

theorem following_of_split (hC : C.Strict) (hA : A.keys = l ++ x :: r) (hx : C.eqv k x = true) :
    A.following k = r.head? := by
  rw [following, find_of_split hC hA hx, Option.bind_some, next_of_split hC hA hx]

theorem preceding_of_split (hC : C.Strict) (hA : A.keys = l ++ x :: r) (hx : C.eqv k x = true) :
    A.preceding k = l.getLast? := by
  rw [preceding, find_of_split hC hA hx, Option.bind_some, prev_of_split hC hA hx]

end Hit

section Miss

variable {A : KeySet C} {l r : List α} {k : α}

theorem find_of_miss (hC : C.Strict) (hA : A.keys = l ++ r) (hl : ∀ a ∈ l, C.lt a k = true)
    (hr : ∀ a ∈ r, C.lt k a = true) : A.find k = none := by
  rw [find, hA, find_split hC hl hr]

theorem insert_of_miss (hC : C.Strict) (hA : A.keys = l ++ r) (hl : ∀ a ∈ l, C.lt a k = true)
    (hr : ∀ a ∈ r, C.lt k a = true) : (A.insert hC k).keys = l ++ k :: r := by
  change A.below k ++ k :: A.above k = _
  rw [below, above, hA, filter_lt_split hC hl hr, filter_gt_split hC hl hr]

theorem next_of_miss (hC : C.Strict) (hA : A.keys = l ++ r) (hl : ∀ a ∈ l, C.lt a k = true)
    (hr : ∀ a ∈ r, C.lt k a = true) : A.next k = r.head? := by
  rw [next, above, hA, filter_gt_split hC hl hr]

theorem following_of_miss (hC : C.Strict) (hA : A.keys = l ++ r)
    (hl : ∀ a ∈ l, C.lt a k = true) (hr : ∀ a ∈ r, C.lt k a = true) : A.following k = none := by
  rw [following, find_of_miss hC hA hl hr, Option.bind_none]

theorem preceding_of_miss (hC : C.Strict) (hA : A.keys = l ++ r)
    (hl : ∀ a ∈ l, C.lt a k = true) (hr : ∀ a ∈ r, C.lt k a = true) : A.preceding k = none := by
  rw [preceding, find_of_miss hC hA hl hr, Option.bind_none]

end Miss

/-! ## The set meaning of the operations -/

theorem mem_find_iff (hC : C.Strict) (A : KeySet C) (k x : α) :
    A.find k = some x ↔ x ∈ A.keys ∧ C.eqv k x = true := by
  constructor
  · intro h
    exact ⟨List.mem_of_find?_eq_some h, List.find?_some h⟩
  · rintro ⟨hx, hEq⟩
    obtain ⟨l, r, hA⟩ := List.append_of_mem hx
    exact find_of_split hC hA hEq

theorem find_eq_none_iff (A : KeySet C) (k : α) :
    A.find k = none ↔ ∀ x ∈ A.keys, C.eqv k x = false := by
  rw [find, List.find?_eq_none]
  simp

theorem mem_insert_iff (hC : C.Strict) (A : KeySet C) (k : α) (h : A.find k = none) (x : α) :
    x ∈ (A.insert hC k).keys ↔ x = k ∨ x ∈ A.keys := by
  change x ∈ A.below k ++ k :: A.above k ↔ _
  rw [List.mem_append, List.mem_cons, below, above, List.mem_filter, List.mem_filter]
  constructor
  · rintro (h | h | h)
    · exact .inr h.1
    · exact .inl h
    · exact .inr h.1
  · rintro (rfl | hx)
    · exact .inr (.inl rfl)
    · rcases hC.total x k with hLt | hEq | hGt
      · exact .inl ⟨hx, hLt⟩
      · have hNone := (A.find_eq_none_iff k).mp h x hx
        exact absurd (hC.eqv_symm hEq) (by simp [hNone])
      · exact .inr (.inr ⟨hx, hGt⟩)

theorem mem_erase_iff (A : KeySet C) (k x : α) :
    x ∈ (A.erase k).keys ↔ x ∈ A.keys ∧ C.eqv k x = false := by
  change x ∈ A.keys.filter _ ↔ _
  rw [List.mem_filter]
  simp

/-- The search for a key or the next one goes over the keys in order. -/
theorem atLeast_eq_find (hC : C.Strict) (A : KeySet C) (k : α) :
    A.atLeast k = A.keys.find? fun a => !C.lt a k := by
  cases hFind : A.find k with
  | some x =>
    obtain ⟨hx, hEq⟩ := (mem_find_iff hC A k x).mp hFind
    obtain ⟨l, r, hA⟩ := List.append_of_mem hx
    obtain ⟨hl, -⟩ := around hC hA hEq
    have hNone : l.find? (fun a => !C.lt a k) = none := by
      apply List.find?_eq_none.mpr
      intro a ha
      simp [hl a ha]
    rw [atLeast, hFind, Option.some_or, hA, List.find?_append, hNone, Option.none_or,
      List.find?_cons_of_pos (by simp [hC.eqv_not_gt hEq])]
  | none =>
    have hNot := (A.find_eq_none_iff k).mp hFind
    rw [atLeast, hFind, Option.none_or, next, above, ← List.head?_filter]
    refine congrArg List.head? (List.filter_congr ?_)
    intro a ha
    rcases hC.total a k with hLt | hEq | hGt
    · simp [hLt, hC.lt_not_gt hLt]
    · exact absurd (hC.eqv_symm hEq) (by simp [hNot a ha])
    · simp [hGt, hC.lt_not_gt hGt]

theorem atLeast_eq_none_iff (hC : C.Strict) (A : KeySet C) (k : α) :
    A.atLeast k = none ↔ ∀ x ∈ A.keys, C.lt x k = true := by
  rw [atLeast_eq_find hC, List.find?_eq_none]
  simp

/-- `x` is the first of the keys that are not below `k`. -/
def IsLeast (C : Comparison α) (keys : List α) (k x : α) : Prop :=
  x ∈ keys ∧ C.lt x k = false ∧ ∀ y ∈ keys, C.lt y k = false → y = x ∨ C.lt x y = true

theorem atLeast_eq_some_iff (hC : C.Strict) (A : KeySet C) (k x : α) :
    A.atLeast k = some x ↔ IsLeast C A.keys k x := by
  rw [atLeast_eq_find hC]
  constructor
  · intro h
    obtain ⟨hx, l, r, hA, hl⟩ := List.find?_eq_some_iff_append.mp h
    have hSorted := hA ▸ A.sorted
    obtain ⟨hRight, -⟩ := sorted_cons.mp (sorted_append.mp hSorted).2.1
    refine ⟨by simp [hA], by simpa using hx, ?_⟩
    intro y hy hNot
    rw [hA] at hy
    rcases List.mem_append.mp hy with hy | hy
    · exact absurd (hl y hy) (by simp [hNot])
    · rcases List.mem_cons.mp hy with rfl | hy
      · exact .inl rfl
      · exact .inr (hRight y hy)
  · rintro ⟨hx, hNot, hLeast⟩
    obtain ⟨l, r, hA⟩ := List.append_of_mem hx
    have hLeft := (sorted_append.mp (hA ▸ A.sorted)).2.2
    refine List.find?_eq_some_iff_append.mpr ⟨by simp [hNot], l, r, hA, ?_⟩
    intro a ha
    have hLess := hLeft a ha x List.mem_cons_self
    cases hBelow : C.lt a k with
    | true => rfl
    | false =>
      rcases hLeast a (by simp [hA, ha]) hBelow with rfl | hGreater
      · exact absurd hLess (by simp [hC.lt_irrefl])
      · exact absurd hGreater (by simp [hC.lt_not_gt hLess])

end KeySet

end DataReel
