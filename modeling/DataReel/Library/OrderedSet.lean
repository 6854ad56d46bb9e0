import Mathlib.Data.List.Perm.Subperm
import Mathlib.Data.List.Pairwise

/-! # Ordered sets with a comparison that may fail

An element is put in its place among the others, or stays out if one that compares equal is
there. Where the comparison is a strict weak order, what is put in stays in, in order.
-/

namespace DataReel

variable {α β : Type}

/-- `insert` of a `std::set`. -/
def setInsert (less : α → α → Option Bool) (x : α) : List α → Option (List α)
  | [] => some [x]
  | y :: l => do
    if ← less y x then
      let l ← setInsert less x l
      return y :: l
    else if ← less x y then return x :: y :: l
    else return y :: l

/-- Elements one after another. -/
def setInsertAll (less : α → α → Option Bool) : List α → List α → Option (List α)
  | [], l => some l
  | x :: xs, l => do
    let l ← setInsert less x l
    setInsertAll less xs l

/-- The comparison of certain elements is a strict weak order. -/
structure StrictWeak (lt : α → α → Bool) (S : α → Prop) : Prop where
  irrefl : ∀ a, S a → lt a a = false
  trans : ∀ a b c, S a → S b → S c → lt a b = true → lt b c = true → lt a c = true
  /-- Elements that compare equal have the same place. -/
  place : ∀ a b c, S a → S b → S c → lt a b = true → lt a c = true ∨ lt c b = true

/-- Neither is less. -/
def Equivalent (lt : α → α → Bool) (a b : α) : Prop := lt a b = false ∧ lt b a = false

instance (lt : α → α → Bool) (a b : α) : Decidable (Equivalent lt a b) :=
  inferInstanceAs (Decidable (_ ∧ _))

namespace StrictWeak

variable {lt : α → α → Bool} {S : α → Prop} (h : StrictWeak lt S) {a b c x : α} {l : List α}

include h

theorem asymm (ha : S a) (hb : S b) (hLt : lt a b = true) : lt b a = false := by
  cases hBack : lt b a with
  | false => rfl
  | true => exact (h.trans a b a ha hb ha hLt hBack).symm.trans (h.irrefl a ha)

theorem lt_of_equivalent (ha : S a) (hb : S b) (hc : S c) (hEq : Equivalent lt a b)
    (hLt : lt b c = true) : lt a c = true := by
  rcases h.place b c a hb hc ha hLt with hBack | hDone
  · rw [hEq.2] at hBack
    cases hBack
  · exact hDone

theorem equivalent_of (ha : S a) (hb : S b) (hc : S c) (hab : Equivalent lt a b)
    (hbc : Equivalent lt b c) : Equivalent lt a c := by
  constructor
  · cases hLt : lt a c with
    | false => rfl
    | true =>
      rcases h.place a c b ha hc hb hLt with hBack | hBack
      · exact hBack.symm.trans hab.1
      · exact hBack.symm.trans hbc.1
  · cases hLt : lt c a with
    | false => rfl
    | true =>
      rcases h.place c a b hc ha hb hLt with hBack | hBack
      · exact hBack.symm.trans hbc.2
      · exact hBack.symm.trans hab.2

end StrictWeak

/-- An insertion comes to an end where the comparison does. -/
theorem setInsert_isSome {less : α → α → Option Bool} {x : α} {l : List α}
    (h : ∀ a ∈ l, (∃ v, less a x = some v) ∧ ∃ v, less x a = some v) :
    ∃ l', setInsert less x l = some l' ∧ ∀ a ∈ l', a = x ∨ a ∈ l := by
  induction l with
  | nil => exact ⟨[x], rfl, fun a ha => .inl (List.mem_singleton.mp ha)⟩
  | cons y l ih =>
    obtain ⟨⟨after, hAfter⟩, before, hBefore⟩ := h y List.mem_cons_self
    obtain ⟨l', hRun, hMem⟩ := ih fun a ha => h a (List.mem_cons_of_mem y ha)
    simp only [setInsert, hAfter, hBefore, Option.bind_eq_bind, Option.bind_some]
    cases after with
    | true =>
      rw [if_pos rfl, hRun]
      refine ⟨y :: l', rfl, fun a ha => ?_⟩
      rcases List.mem_cons.mp ha with rfl | ha
      · exact .inr List.mem_cons_self
      · exact (hMem a ha).imp_right (List.mem_cons_of_mem y)
    | false =>
      rw [if_neg Bool.false_ne_true]
      cases before with
      | true => exact ⟨x :: y :: l, rfl, fun a ha => List.mem_cons.mp ha⟩
      | false => exact ⟨y :: l, rfl, fun a ha => .inr ha⟩

/-- No insertion puts in anything else. -/
theorem setInsert_subset {less : α → α → Option Bool} {x : α} {l l' : List α}
    (h : setInsert less x l = some l') : ∀ a ∈ l', a = x ∨ a ∈ l := by
  induction l generalizing l' with
  | nil =>
    cases h
    exact fun a ha => .inl (List.mem_singleton.mp ha)
  | cons y l ih =>
    simp only [setInsert, Option.bind_eq_bind, Option.bind_eq_some_iff] at h
    obtain ⟨after, -, h⟩ := h
    split at h
    · obtain ⟨l₁, hRest, h⟩ := Option.bind_eq_some_iff.mp h
      cases h
      intro a ha
      rcases List.mem_cons.mp ha with rfl | ha
      · exact .inr List.mem_cons_self
      · exact (ih hRest a ha).imp_right (List.mem_cons_of_mem y)
    · obtain ⟨before, -, h⟩ := Option.bind_eq_some_iff.mp h
      split at h
      · cases h
        exact fun a ha => List.mem_cons.mp ha
      · cases h
        exact fun a ha => .inr ha

theorem setInsertAll_subset {less : α → α → Option Bool} {xs l l' : List α}
    (h : setInsertAll less xs l = some l') : ∀ a ∈ l', a ∈ xs ∨ a ∈ l := by
  induction xs generalizing l with
  | nil =>
    cases h
    exact fun a ha => .inr ha
  | cons x xs ih =>
    obtain ⟨l₁, hPut, hRest⟩ := Option.bind_eq_some_iff.mp h
    intro a ha
    rcases ih hRest a ha with ha | ha
    · exact .inl (List.mem_cons_of_mem x ha)
    · rcases setInsert_subset hPut a ha with rfl | ha
      · exact .inl List.mem_cons_self
      · exact .inr ha

section Insert

variable {less : α → α → Option Bool} {lt : α → α → Bool} {S : α → Prop} {x : α} {l xs : List α}

/-- What an insertion leaves: the element is one more, or one that compares equal is there. -/
theorem setInsert_eq (h : StrictWeak lt S) (hLess : ∀ a b, S a → S b → less a b = some (lt a b))
    (hx : S x) (hl : ∀ a ∈ l, S a) (hSorted : l.Pairwise fun a b => lt a b = true) :
    ∃ l', setInsert less x l = some l' ∧ (l'.Pairwise fun a b => lt a b = true) ∧
      ((l'.Perm (x :: l) ∧ ∀ a ∈ l, ¬ Equivalent lt a x) ∨ (l' = l ∧ ∃ a ∈ l, Equivalent lt a x)) := by
  induction l with
  | nil =>
    refine ⟨[x], rfl, List.pairwise_singleton _ _, .inl ⟨List.Perm.refl _, ?_⟩⟩
    simp
  | cons y l ih =>
    have hy := hl y List.mem_cons_self
    obtain ⟨hHead, hTail⟩ := List.pairwise_cons.mp hSorted
    have hTails (a) (ha : a ∈ l) : S a := hl a (List.mem_cons_of_mem y ha)
    simp only [setInsert, hLess y x hy hx, hLess x y hx hy, Option.bind_eq_bind, Option.bind_some]
    cases hAfter : lt y x with
    | true =>
      obtain ⟨l', hRun, hSorted', hCase⟩ := ih hTails hTail
      rw [if_pos rfl, hRun]
      refine ⟨y :: l', rfl, ?_, ?_⟩
      · rw [List.pairwise_cons]
        refine ⟨fun a ha => ?_, hSorted'⟩
        rcases hCase with ⟨hPerm, -⟩ | ⟨rfl, -⟩
        · rcases List.mem_cons.mp (hPerm.mem_iff.mp ha) with rfl | ha
          · exact hAfter
          · exact hHead a ha
        · exact hHead a ha
      · rcases hCase with ⟨hPerm, hNone⟩ | ⟨rfl, a, ha, hEq⟩
        · left
          constructor
          · exact (hPerm.cons y).trans (List.Perm.swap x y l)
          · intro a ha hEq
            rcases List.mem_cons.mp ha with rfl | ha
            · rw [hEq.1] at hAfter
              cases hAfter
            · exact hNone a ha hEq
        · exact .inr ⟨rfl, a, List.mem_cons_of_mem y ha, hEq⟩
    | false =>
      rw [if_neg Bool.false_ne_true]
      cases hBefore : lt x y with
      | true =>
        have hAll (a) (ha : a ∈ y :: l) : lt x a = true := by
          rcases List.mem_cons.mp ha with rfl | ha
          · exact hBefore
          · exact h.trans x y a hx hy (hTails a ha) hBefore (hHead a ha)
        rw [if_pos rfl]
        refine ⟨x :: y :: l, rfl, List.pairwise_cons.mpr ⟨hAll, hSorted⟩, .inl ⟨List.Perm.refl _, ?_⟩⟩
        intro a ha hEq
        have hLt := hAll a ha
        rw [hEq.2] at hLt
        cases hLt
      | false =>
        rw [if_neg Bool.false_ne_true]
        exact ⟨y :: l, rfl, hSorted, .inr ⟨rfl, y, List.mem_cons_self, hAfter, hBefore⟩⟩

theorem setInsert_mem (h : StrictWeak lt S) (hLess : ∀ a b, S a → S b → less a b = some (lt a b))
    (hx : S x) (hl : ∀ a ∈ l, S a) (hSorted : l.Pairwise fun a b => lt a b = true) {l' : List α}
    (hRun : setInsert less x l = some l') : ∀ a ∈ l', S a := by
  obtain ⟨l'', hRun', -, hCase⟩ := setInsert_eq h hLess hx hl hSorted
  cases hRun.symm.trans hRun'
  intro a ha
  rcases hCase with ⟨hPerm, -⟩ | ⟨rfl, -⟩
  · rcases List.mem_cons.mp (hPerm.mem_iff.mp ha) with rfl | ha
    · exact hx
    · exact hl a ha
  · exact hl a ha

/-- What insertions one after another leave, behind what is there: an element is put in if none
before it compares equal. -/
theorem setInsertAll_eq (h : StrictWeak lt S) (hLess : ∀ a b, S a → S b → less a b = some (lt a b))
    (hxs : ∀ a ∈ xs, S a) (hl : ∀ a ∈ l, S a) (hSorted : l.Pairwise fun a b => lt a b = true) :
    ∃ l', setInsertAll less xs l = some l' ∧ (∀ a ∈ l', S a) ∧
      (l'.Pairwise fun a b => lt a b = true) ∧ ∃ kept : List α, l'.Perm (kept ++ l) ∧ kept.Sublist xs ∧
        ∀ a, a ∈ kept ↔ ∃ p q, xs = p ++ a :: q ∧ ∀ b ∈ p ++ l, ¬ Equivalent lt b a := by
  induction xs generalizing l with
  | nil =>
    refine ⟨l, rfl, hl, hSorted, [], List.Perm.refl _, List.Sublist.refl _, ?_⟩
    simp
  | cons x xs ih =>
    have hx := hxs x List.mem_cons_self
    obtain ⟨l₁, hRun, hSorted₁, hCase⟩ := setInsert_eq h hLess hx hl hSorted
    have hl₁ := setInsert_mem h hLess hx hl hSorted hRun
    have hxs' (a) (ha : a ∈ xs) : S a := hxs a (List.mem_cons_of_mem x ha)
    obtain ⟨l', hRest, hl', hSorted', kept, hPerm, hSub, hKept⟩ := ih hxs' hl₁ hSorted₁
    have hAll : setInsertAll less (x :: xs) l = some l' := by
      rw [setInsertAll, hRun]
      exact hRest
    refine ⟨l', hAll, hl', hSorted', ?_⟩
    rcases hCase with ⟨hPut, hNew⟩ | ⟨rfl, y, hy, hEq⟩
    · refine ⟨x :: kept, ?_, hSub.cons_cons x, fun a => ?_⟩
      · calc l'.Perm (kept ++ l₁) := hPerm
          _ |>.Perm (kept ++ x :: l) := hPut.append_left kept
          _ |>.Perm (x :: kept ++ l) := List.perm_middle
      · have hMem (p : List α) (b : α) : b ∈ p ++ l₁ ↔ b ∈ x :: p ++ l := by
          simp only [List.mem_append, hPut.mem_iff, List.mem_cons]
          tauto
        rw [List.mem_cons, hKept]
        constructor
        · rintro (rfl | ⟨p, q, rfl, hNone⟩)
          · exact ⟨[], xs, rfl, hNew⟩
          · exact ⟨x :: p, q, rfl, fun b hb => hNone b ((hMem p b).mpr hb)⟩
        · rintro ⟨p, q, hSplit, hNone⟩
          cases p with
          | nil =>
            cases hSplit
            exact .inl rfl
          | cons z p =>
            cases hSplit
            exact .inr ⟨p, q, rfl, fun b hb => hNone b ((hMem p b).mp hb)⟩
    · refine ⟨kept, hPerm, hSub.cons x, fun a => ?_⟩
      rw [hKept]
      constructor
      · rintro ⟨p, q, rfl, hNone⟩
        refine ⟨x :: p, q, rfl, fun b hb => ?_⟩
        rcases List.mem_cons.mp hb with rfl | hb
        · intro hSame
          have ha : S a := hxs' a (List.mem_append_right p List.mem_cons_self)
          exact hNone y (List.mem_append_right p hy)
            (h.equivalent_of (hl y hy) hx ha hEq hSame)
        · exact hNone b hb
      · rintro ⟨p, q, hSplit, hNone⟩
        cases p with
        | nil =>
          cases hSplit
          exact absurd hEq (hNone y hy)
        | cons z p =>
          cases hSplit
          exact ⟨p, q, rfl, fun b hb => hNone b (List.mem_cons_of_mem _ hb)⟩

/-- A set made of a list: the elements before which none compares equal. -/
theorem setInsertAll_nil (h : StrictWeak lt S)
    (hLess : ∀ a b, S a → S b → less a b = some (lt a b)) (hxs : ∀ a ∈ xs, S a) :
    ∃ l, setInsertAll less xs [] = some l ∧ ∃ kept : List α, l.Perm kept ∧ kept.Sublist xs ∧
      ∀ a, a ∈ kept ↔ ∃ p q, xs = p ++ a :: q ∧ ∀ b ∈ p, ¬ Equivalent lt b a := by
  obtain ⟨l, hRun, -, -, kept, hPerm, hSub, hKept⟩ :=
    setInsertAll_eq h hLess hxs (l := []) nofun List.Pairwise.nil
  rw [List.append_nil] at hPerm
  simp only [List.append_nil] at hKept
  exact ⟨l, hRun, kept, hPerm, hSub, hKept⟩

/-- All elements stay in exactly if no two compare equal. -/
theorem setInsertAll_length_iff (h : StrictWeak lt S)
    (hLess : ∀ a b, S a → S b → less a b = some (lt a b)) (hxs : ∀ a ∈ xs, S a) {l : List α}
    (hRun : setInsertAll less xs [] = some l) :
    (l.length = xs.length → l.Perm xs) ∧
      (l.length = xs.length ↔ xs.Pairwise fun a b => ¬ Equivalent lt a b) := by
  obtain ⟨l', hRun', -, hSorted, kept, hPerm, hSub, hKept⟩ :=
    setInsertAll_eq h hLess hxs (l := []) nofun List.Pairwise.nil
  cases hRun.symm.trans hRun'
  rw [List.append_nil] at hPerm
  simp only [List.append_nil] at hKept
  have hAll (hLength : l.length = xs.length) : kept = xs :=
    hSub.eq_of_length (hPerm.length_eq.symm.trans hLength)
  refine ⟨fun hLength => hAll hLength ▸ hPerm, fun hLength => ?_, fun hApart => ?_⟩
  · have hApart : l.Pairwise fun a b => ¬ Equivalent lt a b := by
      refine hSorted.imp fun {a b} hLt hEq => ?_
      rw [hEq.1] at hLt
      cases hLt
    have hSymm {a b : α} (hNot : ¬ Equivalent lt a b) : ¬ Equivalent lt b a :=
      fun hEq => hNot ⟨hEq.2, hEq.1⟩
    rw [hAll hLength] at hPerm
    exact hPerm.pairwise hApart hSymm
  · have hNodup : xs.Nodup := by
      refine hApart.imp_of_mem fun {a b} ha hb hNot hSame => ?_
      subst hSame
      exact hNot ⟨h.irrefl a (hxs a ha), h.irrefl a (hxs a ha)⟩
    have hSubset : xs ⊆ kept := by
      intro a ha
      obtain ⟨p, q, rfl⟩ := List.append_of_mem ha
      rw [hKept]
      refine ⟨p, q, rfl, fun b hb => ?_⟩
      exact (List.pairwise_append.mp hApart).2.2 b hb a List.mem_cons_self
    have hLe := (List.subperm_of_subset hNodup hSubset).length_le
    rw [hPerm.length_eq]
    exact Nat.le_antisymm hSub.length_le hLe

/-! ## Alike elements -/

section Alike

variable {R : α → β → Prop} {less' : β → β → Option Bool} {x' : β} {l' : List β}

theorem forall₂_exists {R : α → β → Prop} {l : List α} {l' : List β} (h : List.Forall₂ R l l') {a : α}
    (ha : a ∈ l) : ∃ b ∈ l', R a b := by
  induction h with
  | nil => cases ha
  | cons hHead _ ih =>
    rcases List.mem_cons.mp ha with rfl | ha
    · exact ⟨_, List.mem_cons_self, hHead⟩
    · obtain ⟨b, hb, hR⟩ := ih ha
      exact ⟨b, List.mem_cons_of_mem _ hb, hR⟩

/-- Insertions of alike elements among alike elements leave alike elements. -/
theorem setInsert_alike (hLess : ∀ a a' b b', R a a' → R b b' → less a b = less' a' b')
    (hx : R x x') (hl : List.Forall₂ R l l') :
    (setInsert less x l = none ∧ setInsert less' x' l' = none) ∨
      ∃ k k', setInsert less x l = some k ∧ setInsert less' x' l' = some k' ∧ List.Forall₂ R k k' := by
  induction hl with
  | nil => exact .inr ⟨[x], [x'], rfl, rfl, .cons hx .nil⟩
  | cons hy hl ih =>
    next y y' l l' =>
    simp only [setInsert, hLess y y' x x' hy hx, hLess x x' y y' hx hy, Option.bind_eq_bind]
    cases less' y' x' with
    | none => exact .inl ⟨rfl, rfl⟩
    | some after =>
      rw [Option.bind_some, Option.bind_some]
      cases after with
      | true =>
        rcases ih with ⟨hNone, hNone'⟩ | ⟨k, k', hRun, hRun', hAlike⟩
        · exact .inl ⟨by rw [if_pos rfl, hNone]; rfl, by rw [if_pos rfl, hNone']; rfl⟩
        · exact .inr ⟨y :: k, y' :: k', by rw [if_pos rfl, hRun]; rfl, by rw [if_pos rfl, hRun']; rfl,
            .cons hy hAlike⟩
      | false =>
        rw [if_neg Bool.false_ne_true, if_neg Bool.false_ne_true]
        cases less' x' y' with
        | none => exact .inl ⟨rfl, rfl⟩
        | some before =>
          right
          cases before with
          | true => exact ⟨x :: y :: l, x' :: y' :: l', rfl, rfl, .cons hx (.cons hy hl)⟩
          | false => exact ⟨y :: l, y' :: l', rfl, rfl, .cons hy hl⟩

end Alike

end Insert

end DataReel
