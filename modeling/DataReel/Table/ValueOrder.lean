import DataReel.Library.ThreeWay
import DataReel.Table.Values

/-! # The orders of the values in fields

Each comparison of values is an order. Strings that are compared by the numbers in them are lists of
characters and numbers, compared place by place.
-/

namespace DataReel

/-! ## Values of an ordered type -/

section Order3

variable {α : Type} [LT α] [DecidableLT α]

theorem order3_le_iff {a b : α} (hAsymm : a < b → ¬ b < a) : order3 a b ≤ 0 ↔ ¬ b < a := by
  rw [order3]
  split
  next h => simp [hAsymm h]
  next h =>
    split
    next h' => simp [h']
    next h' => simp [h']

theorem order3_threeWay (hAsymm : ∀ a b : α, a < b → ¬ b < a)
    (hTrans : ∀ a b c : α, ¬ b < a → ¬ c < b → ¬ c < a) : ThreeWay (order3 (α := α)) := by
  constructor
  · intro a b
    rw [order3, order3]
    by_cases h : a < b
    · rw [if_neg (hAsymm a b h), if_pos h, if_pos h]
      rfl
    · rw [if_neg h, if_neg h]
      split <;> rfl
  · intro x y z hxy hyz
    rw [order3_le_iff (hAsymm _ _)] at hxy hyz ⊢
    exact hTrans x y z hxy hyz

end Order3

theorem order3_int : ThreeWay (order3 (α := Int)) :=
  order3_threeWay (fun _ _ => by omega) (fun _ _ _ => by omega)

theorem order3_nat : ThreeWay (order3 (α := Nat)) :=
  order3_threeWay (fun _ _ => by omega) (fun _ _ _ => by omega)

theorem order3_bytes : ThreeWay (order3 (α := List UInt8)) :=
  order3_threeWay (fun _ _ => List.lt_asymm) fun _ _ _ h h' => List.le_trans h h'

theorem compare3_threeWay : ThreeWay compare3 := order3_bytes

/-- Two words are compared by the high ones first. -/
theorem wordsOrder_eq (low₁ high₁ low₂ high₂ : Int) :
    wordsOrder low₁ high₁ low₂ high₂ = firstOf (order3 high₁ high₂) (order3 low₁ low₂) := by
  simp only [wordsOrder, firstOf, order3]
  grind

/-! ## Strings by their numbers -/

/-- A character, or a number as its digits without leading zeros. -/
inductive Token
  | character (c : UInt8)
  | number (digits : List UInt8)

/-- The tokens of a string. -/
def tokens : List UInt8 → List Token
  | [] => []
  | c :: s =>
    if _h : isDigit c then .number (number (c :: s)).1 :: tokens (number (c :: s)).2
    else .character c :: tokens s
termination_by s => s.length
decreasing_by
  · have hLe := number_snd_length (s := s) _h
    rw [List.length_cons]
    omega
  · exact Nat.lt_succ_self _

namespace Token

/-- Numbers are where the digits are among the characters. -/
def place : Token → Nat
  | character c => c.toNat
  | number _ => 48

def digits : Token → List UInt8
  | character _ => []
  | number digits => digits

/-- By the places, and numbers by their lengths and then by their digits. -/
def order (a b : Token) : Int :=
  firstOf (order3 a.place b.place)
    (firstOf (order3 a.digits.length b.digits.length) (order3 a.digits b.digits))

theorem order_threeWay : ThreeWay order :=
  (order3_nat.comap place).andThen
    ((order3_nat.comap fun a => a.digits.length).andThen (order3_bytes.comap digits))

end Token

theorem order3_digits {m n : List UInt8} :
    Token.order (.number m) (.number n) =
      if m.length ≠ n.length then if m.length < n.length then -1 else 1 else order3 m n := by
  simp only [Token.order, Token.place, Token.digits, firstOf, order3]
  grind

/-- A digit and another character, or two others, are compared as they are. -/
theorem order_of_not_digits {a b : Token} {c d : UInt8} (ha : a.place = if isDigit c then 48 else c.toNat)
    (hb : b.place = if isDigit d then 48 else d.toNat) (h : ¬ (isDigit c ∧ isDigit d)) (hNe : c ≠ d) :
    a.order b = if c < d then -1 else 1 := by
  have hPlaces : a.place ≠ b.place ∧ (a.place < b.place ↔ c < d) := by
    rw [ha, hb]
    simp only [isDigit, decide_eq_true_eq, UInt8.le_iff_toNat_le, UInt8.reduceToNat] at h ⊢
    rw [ne_eq, ← UInt8.toNat_inj] at hNe
    rw [UInt8.lt_iff_toNat_lt]
    split <;> split <;> omega
  obtain ⟨hNePlace, hLt⟩ := hPlaces
  rw [Token.order, order3]
  by_cases hLess : c < d
  · rw [if_pos (hLt.mpr hLess), if_pos hLess]
    rfl
  · have hNot : ¬ a.place < b.place := mt hLt.mp hLess
    rw [if_neg hNot, if_pos (by omega), if_neg hLess]
    rfl

theorem order3_ne_zero {m n : List UInt8} (h : m ≠ n) : order3 m n ≠ 0 := by
  rw [order3]
  split
  · decide
  next hLt =>
    split
    · decide
    next hGt => exact absurd (List.le_antisymm (List.not_lt.mp hGt) (List.not_lt.mp hLt)) h

/-- A string begins with a character, or with a number that its first digit belongs to. -/
theorem tokens_cons (c : UInt8) (s : List UInt8) : ∃ a rest, tokens (c :: s) = a :: rest ∧
    a.place = (if isDigit c then 48 else c.toNat) ∧
    (isDigit c = true → a = .number (number (c :: s)).1 ∧ rest = tokens (number (c :: s)).2) ∧
    (isDigit c = false → a = .character c ∧ rest = tokens s) := by
  rw [tokens]
  cases isDigit c with
  | true => exact ⟨_, _, rfl, rfl, fun _ => ⟨rfl, rfl⟩, nofun⟩
  | false => exact ⟨_, _, rfl, rfl, nofun, fun _ => ⟨rfl, rfl⟩⟩

theorem naturalCompare_eq (s t : List UInt8) :
    naturalCompare s t = lexOrder Token.order (tokens s) (tokens t) := by
  induction hn : s.length using Nat.strong_induction_on generalizing s t with
  | _ n ih =>
    subst hn
    cases s with
    | nil =>
      cases t with
      | nil => simp [naturalCompare, tokens, lexOrder]
      | cons d t =>
        obtain ⟨b, rest, hTokens, -⟩ := tokens_cons d t
        rw [naturalCompare, hTokens, tokens, lexOrder]
    | cons c s =>
      obtain ⟨a, restS, hS, hPlaceS, hDigitS, hCharS⟩ := tokens_cons c s
      cases t with
      | nil => rw [naturalCompare, hS, tokens, lexOrder]
      | cons d t =>
        obtain ⟨b, restT, hT, hPlaceT, hDigitT, hCharT⟩ := tokens_cons d t
        rw [hS, hT, lexOrder, naturalCompare]
        by_cases hDigits : isDigit c ∧ isDigit d
        · obtain ⟨rfl, rfl⟩ := hDigitS hDigits.1
          obtain ⟨rfl, rfl⟩ := hDigitT hDigits.2
          have hShorter := number_snd_length (s := s) hDigits.1
          have hRest := ih _ (Nat.lt_succ_of_le hShorter) (number (c :: s)).2 (number (d :: t)).2 rfl
          rw [dif_pos hDigits, hRest, order3_digits]
          simp only [firstOf]
          by_cases hLength : (number (c :: s)).1.length ≠ (number (d :: t)).1.length
          · rw [if_pos hLength, if_pos hLength]
            split <;> rfl
          · rw [if_neg hLength, if_neg hLength]
            by_cases hNe : (number (c :: s)).1 ≠ (number (d :: t)).1
            · rw [if_pos hNe, if_pos (order3_ne_zero hNe)]
            · rw [if_neg hNe, not_not.mp hNe, order3_bytes.self, if_neg (by simp)]
        · rw [dif_neg hDigits]
          by_cases hNe : c ≠ d
          · rw [if_pos hNe, order_of_not_digits hPlaceS hPlaceT hDigits hNe, firstOf]
            split <;> rfl
          · obtain rfl := not_not.mp hNe
            have hChar : isDigit c = false := by simpa using hDigits
            obtain ⟨rfl, rfl⟩ := hCharS hChar
            obtain ⟨rfl, rfl⟩ := hCharT hChar
            rw [if_neg hNe, Token.order_threeWay.self, ih _ (Nat.lt_succ_self _) s t rfl]
            rfl

theorem naturalCompare_threeWay : ThreeWay naturalCompare := by
  have hTokens := (Token.order_threeWay.lexOrder).comap tokens
  constructor
  · intro s t
    rw [naturalCompare_eq, naturalCompare_eq]
    exact hTokens.swap s t
  · intro s t u
    rw [naturalCompare_eq, naturalCompare_eq, naturalCompare_eq]
    exact hTokens.trans

end DataReel
