import DataReel.Table.Record
import Mathlib.Data.List.Infix

/-! # The values in fields

How the bytes of a field are compared: strings with or without case and by the numbers in
them, integers of the build's width, floating point numbers by their bits, and dates.
-/

namespace DataReel

/-- -1, 0 or 1. -/
def order3 {α : Type} [LT α] [DecidableLT α] (a b : α) : Int :=
  if a < b then -1 else if b < a then 1 else 0

theorem order3_self {α : Type} [Preorder α] [DecidableLT α] (a : α) : order3 a a = 0 := by
  rw [order3, if_neg (lt_irrefl a), if_neg (lt_irrefl a)]

/-! ## Strings -/

/-- `to_upper` of a character and of a string. -/
def upperByte (c : UInt8) : UInt8 := if 97 ≤ c ∧ c ≤ 122 then c - 97 + 65 else c

def upperBytes (s : List UInt8) : List UInt8 := s.map upperByte

def compare3 (s t : List UInt8) : Int := order3 s t

def bufferCompare (s t : List UInt8) : Int := order3 s t

def isDigit (c : UInt8) : Bool := 48 ≤ c ∧ c ≤ 57

/-- The digits of a number at the beginning of a string, without leading zeros, and what follows. -/
def number (s : List UInt8) : List UInt8 × List UInt8 :=
  let s := s.dropWhile (· = 48)
  (s.takeWhile isDigit, s.dropWhile isDigit)

theorem length_dropWhile_le {α : Type} (p : α → Bool) (s : List α) : (s.dropWhile p).length ≤ s.length :=
  (List.dropWhile_suffix p).length_le

theorem number_snd_length {c : UInt8} {s : List UInt8} (h : isDigit c) :
    (number (c :: s)).2.length ≤ s.length := by
  have hZeros := length_dropWhile_le (· = 48) s
  by_cases hZero : c = 48
  · have hRest := length_dropWhile_le isDigit (s.dropWhile (· = 48))
    simp only [number, List.dropWhile_cons, hZero, decide_true, if_true]
    omega
  · have hRest := length_dropWhile_le isDigit s
    simp only [number, List.dropWhile_cons, hZero, decide_false, Bool.false_eq_true, if_false, h,
      if_true]
    omega

/-- `natural_compare`: runs of digits compare by their values. -/
def naturalCompare : List UInt8 → List UInt8 → Int
  | [], [] => 0
  | _ :: _, [] => 1
  | [], _ :: _ => -1
  | c :: s, d :: t =>
    if h : isDigit c ∧ isDigit d then
      let m := (number (c :: s)).1
      let n := (number (d :: t)).1
      if m.length ≠ n.length then if m.length < n.length then -1 else 1
      else if m ≠ n then order3 m n
      else naturalCompare (number (c :: s)).2 (number (d :: t)).2
    else if c ≠ d then if c < d then -1 else 1
    else naturalCompare s t
termination_by s => s.length
decreasing_by
  · have hLe := number_snd_length (s := s) h.1
    rw [List.length_cons]
    omega
  · exact Nat.lt_succ_self _

theorem naturalCompare_self (s : List UInt8) : naturalCompare s s = 0 := by
  induction hn : s.length using Nat.strong_induction_on generalizing s with
  | _ n ih =>
    cases s with
    | nil => rw [naturalCompare]
    | cons c s =>
      rw [List.length_cons] at hn
      rw [naturalCompare]
      by_cases hDigit : isDigit c
      · have hLe := number_snd_length (s := s) hDigit
        simp only [hDigit, and_self, dite_true, ne_eq, not_true_eq_false, if_false]
        exact ih _ (by omega) _ rfl
      · simp only [hDigit, and_self, Bool.false_eq_true, dite_false, ne_eq, not_true_eq_false,
          if_false]
        exact ih _ (by omega) _ rfl

/-! ## Numbers -/

/-- A signed number of so many bytes. -/
def signedValue (n v : Nat) : Int := if v < 256 ^ n / 2 then v else v - 256 ^ n

/-- The value of a `gxINT32`. The class of four bytes makes a number of 64 bits of them, with no
sign. -/
def wordValue : IntTypes → List UInt8 → Int
  | .native, bytes => signedValue 8 (Bytes.leNat bytes)
  | .portable, bytes => Bytes.leNat bytes

/-- The bits of a `gxFLOAT64`; the class keeps them with the highest byte first. -/
def floatBits : IntTypes → List UInt8 → Nat
  | .native, bytes => Bytes.leNat bytes
  | .portable, bytes => Bytes.leNat bytes.reverse

/-- The exponent is all ones, and there is a fraction. -/
def isNaN (bits : Nat) : Bool := 0x7FF0000000000000 < bits % 2 ^ 63

/-- A number that orders the bits as their values are ordered, with one zero. -/
def floatKey (bits : Nat) : Int := if bits < 2 ^ 63 then bits else -(bits - 2 ^ 63 : Int)

/-- The comparisons of two numbers; no result is set where one of them is not a number. -/
def floatOrder (a b : Nat) (result : Int) : Int :=
  if isNaN a ∨ isNaN b then result else order3 (floatKey a) (floatKey b)

/-- Year, month and day of the bytes of a `CDate`, which are month, day and year. -/
def dateKey (bytes : List UInt8) : Nat :=
  Bytes.leNat (bytes.drop 2) * 2 ^ 16 + (bytes.getD 0 0).toNat * 2 ^ 8 + (bytes.getD 1 0).toNat

/-- The comparison of two words each, the low ones first; the high ones may turn its result. -/
def wordsOrder (low₁ high₁ low₂ high₂ : Int) : Int :=
  if low₁ = low₂ then order3 high₁ high₂
  else if low₁ < low₂ then if high₂ < high₁ then 1 else -1
  else if high₁ < high₂ then -1 else 1

end DataReel
