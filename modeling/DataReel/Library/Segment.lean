import Mathlib.Data.List.Induction
import Mathlib.Tactic.TypeStar

/-! # Rows of links

A list in a store: every address has the next one. Taking an address out or
putting another in its place changes one link, that of the address before it.
-/

namespace DataReel

universe u

variable {α : Type u}

/-- The links lead from the first address over those of the list to the last. -/
def Segment (next : α → Option α) : α → List α → α → Prop
  | a, [], e => a = e
  | a, b :: l, e => b = a ∧ ∃ a', next a = some a' ∧ Segment next a' l e

variable {next next' : α → Option α} {a b c e x : α} {l l' : List α}

theorem segment_append :
    Segment next a (l ++ l') e ↔ ∃ m, Segment next a l m ∧ Segment next m l' e := by
  induction l generalizing a with
  | nil =>
    constructor
    · exact fun h => ⟨a, rfl, h⟩
    · rintro ⟨m, rfl, h⟩
      exact h
  | cons b l ih =>
    rw [List.cons_append, Segment]
    constructor
    · rintro ⟨hb, a', hNext, h⟩
      obtain ⟨m, hl, hl'⟩ := ih.mp h
      exact ⟨m, ⟨hb, a', hNext, hl⟩, hl'⟩
    · rintro ⟨m, ⟨hb, a', hNext, hl⟩, hl'⟩
      exact ⟨hb, a', hNext, ih.mpr ⟨m, hl, hl'⟩⟩

namespace Segment

theorem congr (h : Segment next a l e) (hNext : ∀ x ∈ l, next' x = next x) :
    Segment next' a l e := by
  induction l generalizing a with
  | nil => exact h
  | cons b l ih =>
    obtain ⟨rfl, a', ha, hl⟩ := h
    refine ⟨rfl, a', ?_, ih hl fun x hx => hNext x (List.mem_cons_of_mem b hx)⟩
    rw [hNext b List.mem_cons_self, ha]

theorem singleton (h : next a = some b) : Segment next a [a] b := ⟨rfl, b, h, rfl⟩

theorem cons (h : Segment next b l e) (hNext : next a = some b) : Segment next a (a :: l) e :=
  ⟨rfl, b, hNext, h⟩

theorem split (h : Segment next a (l ++ x :: l') e) :
    Segment next a l x ∧ ∃ y, next x = some y ∧ Segment next y l' e := by
  obtain ⟨m, hl, rfl, y, hNext, hl'⟩ := segment_append.mp h
  exact ⟨hl, y, hNext, hl'⟩

def head (a c : α) (l : List α) : α :=
  match l with
  | [] => c
  | _ :: _ => a

theorem relink (h : Segment next a l b) (hRest : Segment next' c l' e)
    (hNext : ∀ x ∈ l, l.getLast? ≠ some x → next' x = next x)
    (hLast : ∀ x, l.getLast? = some x → next' x = some c) (hNodup : l.Nodup) :
    Segment next' (head a c l) (l ++ l') e := by
  cases l using List.reverseRecOn with
  | nil => exact hRest
  | append_singleton l x =>
    rw [List.getLast?_concat] at hNext hLast
    obtain ⟨hl, y, -, -⟩ := split h
    have hHead : head a c (l ++ [x]) = a := by cases l <;> rfl
    rw [hHead, List.append_assoc]
    refine segment_append.mpr ⟨x, hl.congr fun z hz => ?_, hRest.cons (hLast x rfl)⟩
    refine hNext z (List.mem_append_left _ hz) fun hSame => ?_
    rw [Option.some.inj hSame, List.nodup_append] at hNodup
    exact hNodup.2.2 z hz z List.mem_cons_self rfl

end Segment

end DataReel
