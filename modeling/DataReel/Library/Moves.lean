import Mathlib.Data.List.Forall2

/-! # Moves between buffers

`memmove` out of a buffer and into it. A move that does not stay inside the buffer has no
result.
-/

namespace DataReel

universe u v

variable {α : Type u}

/-- The `n` elements from `offset` on. -/
def peek (l : List α) (offset n : Nat) : Option (List α) :=
  if offset + n ≤ l.length then some ((l.drop offset).take n) else none

/-- The buffer with `s` moved to `offset`. -/
def poke (l : List α) (offset : Nat) (s : List α) : Option (List α) :=
  if offset + s.length ≤ l.length then
    some (l.take offset ++ (s ++ l.drop (offset + s.length)))
  else
    none

/-- `std::vector::resize`, with the element that new places hold. -/
def resize (fill : α) (l : List α) (n : Nat) : List α :=
  l.take n ++ List.replicate (n - l.length) fill

variable {l l' p s t q : List α} {offset n : Nat}

@[simp] theorem peek_isSome : (peek l offset n).isSome ↔ offset + n ≤ l.length := by
  simp [peek]

theorem peek_of_le (h : offset + n ≤ l.length) : peek l offset n = some ((l.drop offset).take n) :=
  if_pos h

theorem peek_of_lt (h : l.length < offset + n) : peek l offset n = none :=
  if_neg (by omega)

theorem peek_append (hOffset : p.length = offset) (hn : s.length = n) :
    peek (p ++ (s ++ q)) offset n = some s := by
  subst hOffset hn
  have hFits : p.length + s.length ≤ (p ++ (s ++ q)).length := by simp
  rw [peek_of_le hFits, List.drop_left, List.take_left]

theorem peek_append_left (hn : s.length = n) : peek (s ++ q) 0 n = some s :=
  peek_append (p := []) rfl hn

theorem poke_append (hOffset : p.length = offset) (hLength : s.length = t.length) :
    poke (p ++ (s ++ q)) offset t = some (p ++ (t ++ q)) := by
  subst hOffset
  have hFits : p.length + t.length ≤ (p ++ (s ++ q)).length := by simp [hLength]
  have hRest : (p ++ (s ++ q)).drop (p.length + t.length) = q := by
    rw [← hLength, ← List.append_assoc, ← List.length_append, List.drop_left]
  rw [poke, if_pos hFits, List.take_left, hRest]

theorem poke_replicate {fill : α} {m : Nat} (hOffset : p.length = offset) (h : s.length ≤ m) :
    poke (p ++ List.replicate m fill) offset s =
      some (p ++ s ++ List.replicate (m - s.length) fill) := by
  have hSplit : List.replicate m fill =
      List.replicate s.length fill ++ List.replicate (m - s.length) fill := by
    rw [← List.replicate_add]
    congr 1
    omega
  rw [hSplit, poke_append hOffset List.length_replicate, List.append_assoc]

theorem poke_of_lt (h : l.length < offset + s.length) : poke l offset s = none :=
  if_neg (by omega)

@[simp] theorem resize_length (fill : α) : (resize fill l n).length = n := by
  simp only [resize, List.length_append, List.length_take, List.length_replicate]
  omega

theorem resize_of_le (fill : α) (h : l.length ≤ n) :
    resize fill l n = l ++ List.replicate (n - l.length) fill := by
  rw [resize, List.take_of_length_le h]

theorem resize_append (fill : α) : resize fill (p ++ s) (p.length + n) = p ++ resize fill s n := by
  simp only [resize, List.length_append, List.take_append, List.take_of_length_le
    (Nat.le_add_right _ _), Nat.add_sub_cancel_left, Nat.add_sub_add_left, List.append_assoc]

/-! ## Moves of every element -/

theorem mapM_eq_some_iff {β : Type v} {f : α → Option β} {l : List α} {l' : List β} :
    l.mapM f = some l' ↔ List.Forall₂ (fun a b => f a = some b) l l' := by
  induction l generalizing l' with
  | nil =>
    rw [List.mapM_nil, List.forall₂_nil_left_iff]
    simp [eq_comm]
  | cons a l ih =>
    simp only [List.mapM_cons, Option.bind_eq_bind, Option.bind_eq_some_iff,
      List.forall₂_cons_left_iff, ih]
    constructor
    · rintro ⟨b, hb, bs, hbs, h⟩
      cases h
      exact ⟨b, bs, hb, hbs, rfl⟩
    · rintro ⟨b, bs, hb, hbs, rfl⟩
      exact ⟨b, hb, bs, hbs, rfl⟩

end DataReel
