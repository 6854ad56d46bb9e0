import Mathlib.Data.List.Chain
import Mathlib.Data.List.Nodup
import Mathlib.Data.List.Perm.Basic
import Mathlib.Order.Lattice

/-! # Walks by values

A step from an element of an ordered list depends on the value of the element alone, and goes to one
whose neighbour before it has that value. A walk by such steps comes to all elements exactly if their
values are different, or if the last two alone have one value and a step goes from one to the other.
-/

namespace DataReel

variable {α β : Type} [LinearOrder β]

/-- Elements that steps go through one after another. -/
def Visits (f : α → Option α) (l : List α) : Prop := l.IsChain fun a b => f a = some b

/-- A step between the elements of a list. -/
structure StepsBy (f : α → Option α) (value : α → β) (l : List α) : Prop where
  nodup : l.Nodup
  sorted : l.Pairwise fun a b => value a ≤ value b
  congr : ∀ a b, value a = value b → f a = f b
  before : ∀ a w, f a = some w → ∀ p z q, l = p ++ z :: w :: q → value z = value a
  alone : ∀ p x q, l = p ++ x :: q → (∀ y ∈ p ++ q, value y ≠ value x) → f x = q.head?

/-- The values are different, but that the last two may have the same one if the step goes on. -/
def AlikeAtEnd (f : α → Option α) (value : α → β) (l : List α) : Prop :=
  (l.map value).Nodup ∨ ∃ p x y, l = p ++ [x, y] ∧ value x = value y ∧
    ((p ++ [x]).map value).Nodup ∧ f x = some y

variable {f : α → Option α} {value : α → β} {l p q v : List α} {x y a b : α}

theorem Visits.prefix_of (hp : Visits f p) (hv : Visits f v) (hHead : p.head? = v.head?)
    (hLength : p.length ≤ v.length) : p <+: v := by
  induction p generalizing v with
  | nil => exact List.nil_prefix
  | cons a p ih =>
    cases v with
    | nil => cases hHead
    | cons b v =>
      obtain rfl : a = b := Option.some.inj hHead
      rw [List.prefix_cons_inj]
      cases p with
      | nil => exact List.nil_prefix
      | cons c p =>
        cases v with
        | nil =>
          rw [List.length_cons, List.length_cons, List.length_singleton] at hLength
          omega
        | cons d v =>
          obtain ⟨hStep, hp⟩ := List.isChain_cons_cons.mp hp
          obtain ⟨hStep', hv⟩ := List.isChain_cons_cons.mp hv
          exact ih hp hv (hStep.symm.trans hStep') (Nat.le_of_succ_le_succ hLength)

/-- The first two elements with one value are beside one another. -/
theorem first_alike (hSorted : l.Pairwise fun a b => value a ≤ value b) (h : ¬ (l.map value).Nodup) :
    ∃ p x y q, l = p ++ x :: y :: q ∧ value x = value y ∧ ((p ++ [x]).map value).Nodup := by
  induction l with
  | nil => exact absurd List.nodup_nil h
  | cons a l ih =>
    obtain ⟨hFirst, hRest⟩ := List.pairwise_cons.mp hSorted
    by_cases hMore : value a ∈ l.map value
    · obtain ⟨b, hb, hSame⟩ := List.mem_map.mp hMore
      cases l with
      | nil => cases hb
      | cons c l =>
        refine ⟨[], a, c, l, rfl, ?_, List.nodup_singleton _⟩
        apply le_antisymm (hFirst c List.mem_cons_self)
        rcases List.mem_cons.mp hb with rfl | hb
        · exact hSame.le
        · exact hSame ▸ (List.pairwise_cons.mp hRest).1 b hb
    · obtain ⟨p, x, y, q, rfl, hSame, hNodup⟩ := ih hRest fun hNodup =>
        h (List.nodup_cons.mpr ⟨hMore, hNodup⟩)
      refine ⟨a :: p, x, y, q, rfl, hSame, List.nodup_cons.mpr ⟨fun hMem => hMore ?_, hNodup⟩⟩
      change value a ∈ (p ++ [x]).map value at hMem
      rw [List.map_append] at hMem ⊢
      rcases List.mem_append.mp hMem with hMem | hMem
      · exact List.mem_append_left _ hMem
      · exact List.mem_append_right _ (List.mem_cons.mpr (.inl (List.mem_singleton.mp hMem)))

/-- Of two elements from which steps go to the same one, the other one is the last of a walk, and it is
beside the first if steps to it are as the one from the first. -/
theorem Visits.last (hv : Visits f (x :: v)) (hNodup : (x :: v).Nodup) (hy : y ∈ v) (hSame : f x = f y)
    (hBefore : ∀ z, f z = some y → f z = f x) : v = [y] := by
  obtain ⟨s, u, rfl⟩ := List.append_of_mem hy
  have hRest := (List.nodup_cons.mp hNodup).2
  obtain ⟨-, hLast, hApart⟩ := List.nodup_append.mp hRest
  have hu : u = [] := by
    cases u with
    | nil => rfl
    | cons c u =>
      exfalso
      have hFrom : f y = some c := by
        rw [Visits, ← List.cons_append] at hv
        exact (List.isChain_append_cons_cons.mp hv).2.1
      cases s with
      | nil =>
        have hStep : f x = some y := (List.isChain_cons_cons.mp hv).1
        obtain rfl : y = c := Option.some.inj (hStep.symm.trans (hSame.trans hFrom))
        exact (List.nodup_cons.mp hLast).1 List.mem_cons_self
      | cons d s =>
        have hStep : f x = some d := (List.isChain_cons_cons.mp hv).1
        obtain rfl : d = c := Option.some.inj (hStep.symm.trans (hSame.trans hFrom))
        exact hApart d List.mem_cons_self d (List.mem_cons_of_mem y List.mem_cons_self) rfl
  subst hu
  rcases List.eq_nil_or_concat s with rfl | ⟨s, z, rfl⟩
  · rfl
  · exfalso
    rw [List.concat_eq_append] at hv hApart
    have hStep : f z = some y := by
      rw [Visits, List.append_assoc, List.singleton_append, ← List.cons_append] at hv
      exact (List.isChain_append_cons_cons.mp hv).2.1
    obtain ⟨d, t, hFirst⟩ := List.exists_cons_of_ne_nil (List.append_ne_nil_of_right_ne_nil s
      (List.cons_ne_nil z []))
    rw [hFirst] at hv hApart
    have hFrom : f x = some d := (List.isChain_cons_cons.mp hv).1
    have hBoth := (hBefore z hStep).symm.trans hStep
    obtain rfl : d = y := Option.some.inj (hFrom.symm.trans hBoth)
    exact hApart d List.mem_cons_self d List.mem_cons_self rfl

namespace StepsBy

variable (h : StepsBy f value l)

include h

/-- The walk through elements whose values no others have. -/
theorem visits_of_nodup (hl : l = p ++ q) (hNodup : (p.map value).Nodup)
    (hOther : ∀ a ∈ p.dropLast, ∀ b ∈ q, value b ≠ value a) : Visits f p := by
  refine List.isChain_iff_forall_rel_of_append_cons_cons.mpr fun a b s u hp => ?_
  subst hp
  refine h.alone s a (b :: u ++ q) (by rw [hl]; simp) fun c hc hSame => ?_
  rw [List.map_append, List.map_cons] at hNodup
  obtain ⟨-, hTail, hApart⟩ := List.nodup_append.mp hNodup
  have ha : a ∈ (s ++ a :: b :: u).dropLast := by
    rw [List.dropLast_append_of_ne_nil (List.cons_ne_nil _ _)]
    exact List.mem_append_right _ (by simp)
  rcases List.mem_append.mp hc with hc | hc
  · exact hApart _ (List.mem_map_of_mem hc) _ List.mem_cons_self hSame
  · rcases List.mem_append.mp hc with hc | hc
    · exact (List.nodup_cons.mp hTail).1 (hSame ▸ List.mem_map_of_mem hc)
    · exact hOther a ha c hc hSame

/-- The walk to the first of two elements with one value. -/
theorem visits_first (hl : l = p ++ x :: y :: q) (hNodup : ((p ++ [x]).map value).Nodup) :
    Visits f (p ++ [x]) := by
  refine h.visits_of_nodup (q := y :: q) (by rw [hl]; simp) hNodup fun a ha b hb hEq => ?_
  rw [List.dropLast_concat] at ha
  have hSorted := h.sorted
  rw [hl] at hSorted
  obtain ⟨-, hTail, hCross⟩ := List.pairwise_append.mp hSorted
  have hLess : value a ≤ value x := hCross a ha x List.mem_cons_self
  have hMore : value x ≤ value b := (List.pairwise_cons.mp hTail).1 b hb
  rw [List.map_append] at hNodup
  exact (List.nodup_append.mp hNodup).2.2 _ (List.mem_map_of_mem ha) _
    (List.mem_map_of_mem (List.mem_singleton_self x)) (le_antisymm hLess (hEq ▸ hMore))

/-- A walk from the first element through all of them goes in order. -/
theorem visits_all (hv : Visits f v) (hHead : v.head? = l.head?) (hPerm : v.Perm l) :
    AlikeAtEnd f value l ∧ v = l := by
  have hLength := hPerm.length_eq
  by_cases hNodup : (l.map value).Nodup
  · have hl : Visits f l := h.visits_of_nodup (List.append_nil l).symm hNodup nofun
    exact ⟨.inl hNodup, ((hl.prefix_of hv hHead.symm hLength.ge).eq_of_length hLength.symm).symm⟩
  · obtain ⟨p, x, y, q, hl, hSame, hFirst⟩ := first_alike h.sorted hNodup
    have hHead' : (p ++ [x]).head? = v.head? := by
      rw [hHead, hl]
      cases p <;> rfl
    have hTo := h.visits_first hl hFirst
    obtain ⟨rest, hRest⟩ := hTo.prefix_of hv hHead' (by rw [hLength, hl]; simp)
    rw [List.append_assoc, List.singleton_append] at hRest
    subst hRest
    have hDistinct := hPerm.nodup_iff.mpr h.nodup
    rw [hl] at hPerm
    have hBehind := (List.perm_append_left_iff p).mp hPerm
    have hEnd : Visits f (x :: rest) := (List.isChain_split.mp hv).2
    have hy : y ∈ rest := ((List.perm_cons x).mp hBehind).mem_iff.mpr List.mem_cons_self
    have hOnly : rest = [y] := by
      apply hEnd.last (List.nodup_append.mp hDistinct).2.1 hy (h.congr x y hSame)
      intro z hz
      exact (h.congr x z (h.before z y hz p x q hl)).symm
    subst hOnly
    have hStep : f x = some y := (List.isChain_cons_cons.mp hEnd).1
    have hq : q = [] := by
      have hLen := hBehind.length_eq
      simp only [List.length_cons, List.length_nil] at hLen
      exact List.length_eq_zero_iff.mp (by omega)
    subst hq
    exact ⟨.inr ⟨p, x, y, hl, hSame, hFirst, hStep⟩, hl.symm⟩

/-- Where it does, each step goes on to the next element. -/
theorem visits_self (hEnd : AlikeAtEnd f value l) : Visits f l := by
  rcases hEnd with hNodup | ⟨p, x, y, hl, hSame, hNodup, hStep⟩
  · exact h.visits_of_nodup (List.append_nil l).symm hNodup nofun
  · have hTo := h.visits_first hl hNodup
    rw [hl, Visits, List.isChain_append_cons_cons]
    exact ⟨hTo, hStep, List.isChain_singleton y⟩

end StepsBy

end DataReel
