import Mathlib.Data.BitVec
import Mathlib.Logic.Function.Iterate

/-! # Shift registers with feedback

A register of `w` bits that divides by a polynomial: it is shifted to the right,
and the polynomial is added if a one has left it. Symbols are added to its low
bits one after another. A shift is linear and, if the polynomial has its highest
bit, injective, so that two messages that differ in no more bits next to each
other than the register has leave different remainders.
-/

namespace DataReel.ShiftRegister

variable {w k : Nat} (p : BitVec w)

/-- A shift of the register. -/
def step (x : BitVec w) : BitVec w := if x.getLsbD 0 then (x >>> 1) ^^^ p else x >>> 1

/-- A symbol is added to the register and shifted out. -/
def feed (x : BitVec w) (b : BitVec k) : BitVec w := (step p)^[k] (x ^^^ b.setWidth w)

/-- A message as one word. -/
def packed : List (BitVec k) → BitVec w
  | [] => 0#w
  | b :: l => b.setWidth w ^^^ (packed l <<< k)

variable {p} {x y : BitVec w}

/-! ## Shifts -/

theorem step_eq (x : BitVec w) : step p x = (x >>> 1) ^^^ if x.getLsbD 0 then p else 0#w := by
  rw [step]
  split
  · rfl
  · rw [BitVec.xor_zero]

theorem step_xor (x y : BitVec w) : step p (x ^^^ y) = step p x ^^^ step p y := by
  simp only [step_eq, BitVec.getLsbD_xor, BitVec.ushiftRight_xor_distrib]
  generalize x >>> 1 = u
  generalize y >>> 1 = v
  cases x.getLsbD 0 <;> cases y.getLsbD 0 <;> ext i hi <;> simp <;>
    cases u[i] <;> cases v[i] <;> simp

theorem iterate_step_xor (n : Nat) (x y : BitVec w) :
    (step p)^[n] (x ^^^ y) = (step p)^[n] x ^^^ (step p)^[n] y := by
  induction n generalizing x y with
  | zero => rfl
  | succ n ih =>
    rw [Function.iterate_succ_apply, step_xor, ih]
    rfl

/-- The highest bit of the register tells whether the polynomial was added. -/
theorem step_eq_zero (hp : p.msb = true) (hStep : step p x = 0#w) : x = 0#w := by
  rw [step] at hStep
  split at hStep
  · rename_i hLow
    have hTop := congrArg BitVec.msb hStep
    rw [BitVec.msb_xor, hp, BitVec.msb_ushiftRight] at hTop
    simp at hTop
  · rename_i hLow
    ext i hi
    cases i with
    | zero => simpa [← BitVec.getLsbD_eq_getElem] using hLow
    | succ i =>
      have hBit := congrArg (fun z => z.getLsbD i) hStep
      rw [BitVec.getLsbD_ushiftRight, Nat.add_comm 1 i] at hBit
      simpa [← BitVec.getLsbD_eq_getElem] using hBit

theorem step_injective (hp : p.msb = true) : Function.Injective (step p) := by
  intro x y hSame
  have hSum : step p (x ^^^ y) = 0#w := by rw [step_xor, hSame, BitVec.xor_self]
  exact BitVec.xor_eq_zero_iff.mp (step_eq_zero hp hSum)

/-- Bits that have room above them come back when they are shifted out. -/
theorem iterate_step_shiftLeft {n : Nat} (hx : ∀ i, w ≤ i + n → x.getLsbD i = false) :
    (step p)^[n] (x <<< n) = x := by
  induction n with
  | zero => exact BitVec.shiftLeft_zero x
  | succ n ih =>
    have hStep : step p (x <<< (n + 1)) = x <<< n := by
      rw [step, if_neg (by simp)]
      ext i hi
      rw [← BitVec.getLsbD_eq_getElem, ← BitVec.getLsbD_eq_getElem, BitVec.getLsbD_ushiftRight,
        BitVec.getLsbD_shiftLeft, BitVec.getLsbD_shiftLeft]
      by_cases hLast : 1 + i < w
      · have hBoth : (1 + i < n + 1 ↔ i < n) ∧ 1 + i - (n + 1) = i - n := by omega
        simp [hLast, hi, hBoth]
      · have hBit := hx (i - n)
        by_cases hn : i < n
        · simp [hLast, hn]
        · simp [hLast, hBit (by omega)]
    rw [Function.iterate_succ_apply, hStep]
    exact ih fun i hi => hx i (by omega)

/-! ## Messages -/

theorem packed_bits (l : List (BitVec k)) {i : Nat} (hi : l.length * k ≤ i) :
    (packed l : BitVec w).getLsbD i = false := by
  induction l generalizing i with
  | nil => exact BitVec.getLsbD_zero
  | cons b l ih =>
    rw [List.length_cons, Nat.succ_mul] at hi
    rw [packed, BitVec.getLsbD_xor, BitVec.getLsbD_setWidth, BitVec.getLsbD_shiftLeft,
      BitVec.getLsbD_of_ge b i (by omega), ih (i := i - k) (by omega)]
    simp

theorem foldl_feed_eq {l : List (BitVec k)} (hl : l.length * k ≤ w) (x : BitVec w) :
    l.foldl (feed p) x = (step p)^[l.length * k] (x ^^^ packed l) := by
  induction l generalizing x with
  | nil =>
    rw [List.length_nil, Nat.zero_mul, packed, BitVec.xor_zero]
    rfl
  | cons b l ih =>
    rw [List.length_cons, Nat.succ_mul] at hl ⊢
    have hRest : (step p)^[k] (packed l <<< k) = packed l :=
      iterate_step_shiftLeft fun i hi => packed_bits l (by omega)
    calc (b :: l).foldl (feed p) x
        = (step p)^[l.length * k] (feed p x b ^^^ packed l) := ih (by omega) _
      _ = (step p)^[l.length * k] ((step p)^[k] (x ^^^ b.setWidth w) ^^^ (step p)^[k] (packed l <<< k)) := by
        rw [hRest, feed]
      _ = (step p)^[l.length * k + k] (x ^^^ packed (b :: l)) := by
        rw [← iterate_step_xor, BitVec.xor_assoc, Function.iterate_add_apply, packed]

theorem packed_inj {l l' : List (BitVec k)} (hLength : l.length = l'.length) (hl : l.length * k ≤ w)
    (hSame : (packed l : BitVec w) = packed l') : l = l' := by
  induction l generalizing l' with
  | nil => exact (List.length_eq_zero_iff.mp hLength.symm).symm
  | cons b l ih =>
    obtain ⟨b', l', rfl⟩ := List.exists_cons_of_length_eq_add_one hLength.symm
    have hRest : l.length = l'.length := Nat.succ.inj hLength
    rw [List.length_cons, Nat.succ_mul] at hl
    rw [packed, packed] at hSame
    obtain rfl : b = b' := by
      refine BitVec.eq_of_getLsbD_eq fun i hi => ?_
      have hBit := congrArg (fun z => z.getLsbD i) hSame
      have hIn : i < w := by omega
      simpa [hi, hIn] using hBit
    have hShifted := (BitVec.xor_right_inj _).mp hSame
    have hBack (m : List (BitVec k)) (hm : m.length = l.length) :
        (step 0#w)^[k] ((packed m : BitVec w) <<< k) = packed m :=
      iterate_step_shiftLeft fun i hi => packed_bits m (by rw [hm]; omega)
    rw [ih hRest (by omega) ((hBack l rfl).symm.trans ((congrArg _ hShifted).trans (hBack l' hRest.symm)))]

theorem feed_injective (hp : p.msb = true) (b : BitVec k) : Function.Injective fun x => feed p x b := by
  intro x y hSame
  exact (BitVec.xor_left_inj _).mp ((step_injective hp).iterate k hSame)

theorem foldl_feed_injective (hp : p.msb = true) (l : List (BitVec k)) :
    Function.Injective fun x => l.foldl (feed p) x := by
  induction l with
  | nil => exact Function.injective_id
  | cons b l ih => exact ih.comp (feed_injective hp b)

/-- Messages with the same remainder that differ in no more bits next to each other than the register
has are the same. -/
theorem foldl_feed_burst (hp : p.msb = true) {front l l' back : List (BitVec k)}
    (hLength : l.length = l'.length) (hl : l.length * k ≤ w)
    (hSame : (front ++ l ++ back).foldl (feed p) x = (front ++ l' ++ back).foldl (feed p) x) : l = l' := by
  simp only [List.foldl_append] at hSame
  have hMiddle := foldl_feed_injective hp back hSame
  have hl' : l'.length * k ≤ w := by rwa [← hLength]
  rw [foldl_feed_eq hl, foldl_feed_eq hl', ← hLength] at hMiddle
  exact packed_inj hLength hl ((BitVec.xor_right_inj _).mp ((step_injective hp).iterate _ hMiddle))

end DataReel.ShiftRegister
