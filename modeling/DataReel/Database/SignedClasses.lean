import DataReel.Library.Bytes
import DataReel.Library.Signed

/-! # The portable signed integer classes

`gxINT16`, `gxINT32` and `gxINT64` of a build without native integer types, on a
platform whose `long` has eight bytes. The three classes differ in the bytes
they store, in the native type they convert from and to, and in the type that
the built-in operators work in.
-/

namespace DataReel

inductive SignedClass
  | gxINT16
  | gxINT32
  | gxINT64
  deriving DecidableEq, Repr

namespace SignedClass

/-- The length of the `byte` array. -/
def bytes : SignedClass → Nat
  | gxINT16 => 2
  | gxINT32 => 4
  | gxINT64 => 8

/-- The bits of `__SWORD__`, `__LWORD__` and `__LLWORD__`. -/
def nativeBits : SignedClass → Nat
  | gxINT16 => 16
  | gxINT32 => 64
  | gxINT64 => 64

/-- The bits of the promoted native type: a `short` is computed with as an `int`. -/
def promotedBits : SignedClass → Nat
  | gxINT16 => 32
  | gxINT32 => 64
  | gxINT64 => 64

variable (C : SignedClass)

/-- The range that the headers document. -/
def InRange (v : Int) : Prop := FitsWord (8 * C.bytes) v

instance (v : Int) : Decidable (C.InRange v) := inferInstanceAs (Decidable (FitsWord _ _))

/-- Combines the bytes in the unsigned native type, the last one first, and casts to the signed
native type. -/
def packBits (byte : List UInt8) : Int :=
  Int.bmod (byte.foldr (fun b val => ((val <<< 8) ||| b.toNat) % 2 ^ C.nativeBits) 0 : Nat)
    (2 ^ C.nativeBits)

/-- Each byte by its mask and shift. -/
def unPackBits (val : Int) : List UInt8 :=
  (List.range C.bytes).map fun i =>
    UInt8.ofNat (((val % 2 ^ C.nativeBits).toNat &&& (0xFF <<< (8 * i))) >>> (8 * i))

end SignedClass

/-- The six comparison operators. -/
inductive Relation
  | eq
  | ne
  | lt
  | gt
  | le
  | ge
  deriving DecidableEq, Repr

def Relation.exact : Relation → Int → Int → Bool
  | eq, v, w => v == w
  | ne, v, w => v != w
  | lt, v, w => v < w
  | gt, v, w => v > w
  | le, v, w => v ≤ w
  | ge, v, w => v ≥ w

/-- The four operators `+=`, `-=`, `*=` and `/=`. -/
inductive Assignment
  | add
  | sub
  | mul
  | div
  deriving DecidableEq, Repr

/-- Division truncates towards zero. -/
def Assignment.exact : Assignment → Int → Int → Int
  | add, v, w => v + w
  | sub, v, w => v - w
  | mul, v, w => v * w
  | div, v, w => v.tdiv w

namespace SignedClass

variable (C : SignedClass)

/-- A comparison operator on two objects of the class. -/
def compare : Relation → List UInt8 → List UInt8 → Bool
  | .eq, a, b => C.packBits a == C.packBits b
  | .ne, a, b => C.packBits a != C.packBits b
  | .lt, a, b => C.packBits a < C.packBits b
  | .gt, a, b => C.packBits a > C.packBits b
  | .le, a, b => C.packBits a == C.packBits b || C.packBits a < C.packBits b
  | .ge, a, b => C.packBits a == C.packBits b || C.packBits a > C.packBits b

/-- `*this op= i`: the built-in operator works on the converted values. -/
def assign (op : Assignment) (a b : List UInt8) : Option (List UInt8) :=
  if op = .div ∧ C.compare .eq b (C.unPackBits 0) = true then some a
  else (checkedWord C.promotedBits (op.exact (C.packBits a) (C.packBits b))).map C.unPackBits

/-! ## What an object reads back as -/

variable {C}

theorem combined_eq (n : Nat) (l : List UInt8) :
    l.foldr (fun b val => ((val <<< 8) ||| b.toNat) % 2 ^ n) 0 = Bytes.leNat l % 2 ^ n := by
  induction l with
  | nil => rw [List.foldr_nil, Bytes.leNat, Nat.zero_mod]
  | cons b l ih =>
    rw [List.foldr_cons, ih, Bytes.leNat, ← Nat.shiftLeft_add_eq_or_of_lt b.toNat_lt, Nat.shiftLeft_eq,
      Nat.add_mod, Nat.mul_mod, Nat.mod_mod, ← Nat.mul_mod, ← Nat.add_mod]
    congr 1
    omega

theorem masked_eq (x k : Nat) : (x &&& (0xFF <<< k)) >>> k = x / 2 ^ k % 256 := by
  rw [Nat.shiftRight_and_distrib, Nat.shiftLeft_shiftRight, Nat.shiftRight_eq_div_pow]
  exact Nat.and_two_pow_sub_one_eq_mod _ 8

theorem unPacked_eq (n x : Nat) :
    ((List.range n).map fun i => UInt8.ofNat ((x &&& (0xFF <<< (8 * i))) >>> (8 * i))) =
      Bytes.leBytes n x := by
  induction n generalizing x with
  | zero => rfl
  | succ n ih =>
    rw [List.range_succ_eq_map, List.map_cons, List.map_map, Bytes.leBytes, ← ih]
    congr 1
    · rw [masked_eq]
      simp [← UInt8.toNat_inj]
    · apply List.map_congr_left
      intro i _
      have hShift : x / 2 ^ (8 * (i + 1)) = x / 256 / 2 ^ (8 * i) := by
        rw [Nat.div_div_eq_div_mul, Nat.mul_add, Nat.pow_add, Nat.mul_comm]
      simp only [Function.comp_apply, masked_eq, Nat.succ_eq_add_one, hShift]

theorem bytes_le (C : SignedClass) : 8 * C.bytes ≤ C.nativeBits := by
  cases C <;> decide

/-- What is left of a value after a conversion to the class and back. -/
theorem packBits_unPackBits (C : SignedClass) (v : Int) :
    C.packBits (C.unPackBits v) = (v % 2 ^ (8 * C.bytes)).bmod (2 ^ C.nativeBits) := by
  have hPow : (2 : Nat) ^ (8 * C.bytes) = 256 ^ C.bytes := Nat.pow_mul 2 8 _
  have hDvd : (2 : Int) ^ (8 * C.bytes) ∣ 2 ^ C.nativeBits := pow_dvd_pow 2 C.bytes_le
  have hNative : (0 : Int) ≤ v % 2 ^ C.nativeBits := Int.emod_nonneg _ (Int.pow_ne_zero (by decide))
  rw [packBits, unPackBits, combined_eq, unPacked_eq, Bytes.leNat_leBytes_mod, ← hPow]
  push_cast
  rw [Int.toNat_of_nonneg hNative, Int.emod_emod_of_dvd v hDvd]
  exact_mod_cast Int.emod_bmod (v % 2 ^ (8 * C.bytes)) (2 ^ C.nativeBits)

/-- Where the native type has the width of the class, the cast extends the sign. -/
theorem reads_back {C : SignedClass} (hC : C ≠ gxINT32) {v : Int} (h : C.InRange v) :
    C.packBits (C.unPackBits v) = v := by
  rw [packBits_unPackBits]
  cases C with
  | gxINT32 => exact absurd rfl hC
  | gxINT16 =>
    obtain ⟨hLow, hHigh⟩ : -32768 ≤ v ∧ v < 32768 := h
    change (v % 65536).bmod 65536 = v
    rw [Int.bmod]
    split <;> omega
  | gxINT64 =>
    obtain ⟨hLow, hHigh⟩ : -9223372036854775808 ≤ v ∧ v < 9223372036854775808 := h
    change (v % 18446744073709551616).bmod 18446744073709551616 = v
    rw [Int.bmod]
    split <;> omega

/-- The eight bytes of the unsigned type leave the sign bit of a `gxINT32` in the middle. -/
theorem gxINT32_reads (v : Int) : gxINT32.packBits (gxINT32.unPackBits v) = v % 4294967296 := by
  rw [packBits_unPackBits]
  change (v % 4294967296).bmod 18446744073709551616 = v % 4294967296
  rw [Int.bmod]
  split <;> omega

theorem compare_eq (C : SignedClass) (op : Relation) (a b : List UInt8) :
    C.compare op a b = op.exact (C.packBits a) (C.packBits b) := by
  cases op with
  | le | ge =>
    rw [Bool.eq_iff_iff]
    simp only [compare, Relation.exact, Bool.or_eq_true, beq_iff_eq, decide_eq_true_eq]
    omega
  | eq | ne | lt | gt => rfl

/-! ## Where the operators are exact -/

/-- A `gxINT32` keeps no negative value. -/
def Keeps (C : SignedClass) (v : Int) : Prop := C = gxINT32 → 0 ≤ v

/-- It orders values of one sign only. -/
def KeepsOrder (C : SignedClass) (v w : Int) : Prop := C = gxINT32 → (0 ≤ v ↔ 0 ≤ w)

/-- A result that would be negative is lost, and so is most that two negative operands give. -/
def Computes (C : SignedClass) : Assignment → Int → Int → Prop
  | .add, v, w => C = gxINT32 → -w ≤ v
  | .sub, v, w => C = gxINT32 → w ≤ v
  | .mul, v, w => C = gxINT32 → v = 0 ∨ w = 0 ∨ 0 ≤ v ∧ 0 ≤ w
  | .div, v, w => C = gxINT32 → 0 ≤ v ∧ (0 < w ∨ v < -w) ∨ v = w

theorem keeps_iff (C : SignedClass) {v : Int} (h : C.InRange v) :
    C.packBits (C.unPackBits v) = v ↔ C.Keeps v := by
  by_cases hC : C = gxINT32
  · subst hC
    obtain ⟨hLow, hHigh⟩ : -2147483648 ≤ v ∧ v < 2147483648 := h
    rw [gxINT32_reads, Keeps]
    constructor
    · intro hRead _
      omega
    · intro hNonneg
      have := hNonneg rfl
      omega
  · exact ⟨fun _ hIs => absurd hIs hC, fun _ => reads_back hC h⟩

theorem keepsOrder_iff (C : SignedClass) {v w : Int} (hv : C.InRange v) (hw : C.InRange w) :
    (∀ op, C.compare op (C.unPackBits v) (C.unPackBits w) = op.exact v w) ↔ C.KeepsOrder v w := by
  simp only [compare_eq]
  by_cases hC : C = gxINT32
  · subst hC
    obtain ⟨hLowV, hHighV⟩ : -2147483648 ≤ v ∧ v < 2147483648 := hv
    obtain ⟨hLowW, hHighW⟩ : -2147483648 ≤ w ∧ w < 2147483648 := hw
    simp only [gxINT32_reads, KeepsOrder, true_imp_iff]
    constructor
    · intro hAll
      have hLt := hAll .lt
      have hGt := hAll .gt
      simp only [Relation.exact, decide_eq_decide] at hLt hGt
      omega
    · intro hSign op
      cases op <;> rw [Bool.eq_iff_iff] <;> simp only [Relation.exact, beq_iff_eq, bne_iff_ne,
        decide_eq_true_eq] <;> omega
  · simp only [reads_back hC hv, reads_back hC hw, KeepsOrder, hC, false_imp_iff, implies_true]

theorem fits_promoted {C : SignedClass} {x : Int} (h : C.InRange x) :
    FitsWord C.promotedBits x :=
  h.mono (by cases C <;> decide)

/-- The divisor is compared with an object made from zero. -/
theorem divisor_eq_zero_iff {C : SignedClass} {w : Int} (hw : C.InRange w) :
    C.compare .eq (C.unPackBits w) (C.unPackBits 0) = true ↔ w = 0 := by
  rw [compare_eq, Relation.exact, beq_iff_eq]
  by_cases hC : C = gxINT32
  · subst hC
    obtain ⟨hLow, hHigh⟩ : -2147483648 ≤ w ∧ w < 2147483648 := hw
    rw [gxINT32_reads, gxINT32_reads]
    omega
  · rw [reads_back hC hw, reads_back hC (by cases C <;> decide)]

theorem assign_eq {C : SignedClass} {op : Assignment} {v w : Int} (hw : C.InRange w)
    (hDiv : op = .div → w ≠ 0) :
    C.assign op (C.unPackBits v) (C.unPackBits w) = (checkedWord C.promotedBits
      (op.exact (C.packBits (C.unPackBits v)) (C.packBits (C.unPackBits w)))).map C.unPackBits := by
  apply if_neg
  rintro ⟨hOp, hZero⟩
  exact hDiv hOp ((divisor_eq_zero_iff hw).mp hZero)

theorem stored_iff (x y : Int) :
    ((checkedWord gxINT32.promotedBits x).map gxINT32.unPackBits).map gxINT32.packBits = some y ↔
      FitsWord 64 x ∧ x % 4294967296 = y := by
  by_cases h : FitsWord gxINT32.promotedBits x
  · have hFits : FitsWord 64 x := h
    simp only [checkedWord_of_fits h, Option.map_some, gxINT32_reads, Option.some.injEq, hFits,
      true_and]
  · have hFits : ¬ FitsWord 64 x := h
    simp only [checkedWord_eq_none h, Option.map_none, reduceCtorEq, hFits, false_and]

/-! The sum, the product and the quotient of two `gxINT32` values as the operators read them. -/

section Read

variable {v w : Int}

theorem mul_read_iff (hv : gxINT32.InRange v) (hw : gxINT32.InRange w)
    (hExact : gxINT32.InRange (v * w)) :
    (FitsWord 64 ((v % 4294967296) * (w % 4294967296)) ∧
      (v % 4294967296) * (w % 4294967296) % 4294967296 = v * w) ↔
        v = 0 ∨ w = 0 ∨ 0 ≤ v ∧ 0 ≤ w := by
  obtain ⟨hLowV, hHighV⟩ : -2147483648 ≤ v ∧ v < 2147483648 := hv
  obtain ⟨hLowW, hHighW⟩ : -2147483648 ≤ w ∧ w < 2147483648 := hw
  obtain ⟨hLow, hHigh⟩ : -2147483648 ≤ v * w ∧ v * w < 2147483648 := hExact
  rw [← Int.mul_emod]
  constructor
  · rintro ⟨⟨-, hFits⟩, hResult⟩
    have hFits : (v % 4294967296) * (w % 4294967296) < 9223372036854775808 := hFits
    have hNonneg : 0 ≤ v * w := by omega
    rcases Int.lt_trichotomy v 0 with hNeg | hZero | hPos
    · rcases Int.lt_trichotomy w 0 with hNegW | hZeroW | hPosW
      · -- Both are read as values near `2 ^ 32`, and their product leaves the type.
        have hV : v % 4294967296 = v + 4294967296 := by omega
        have hW : w % 4294967296 = w + 4294967296 := by omega
        have hCross : 0 ≤ (-v - 1) * (-w - 1) := Int.mul_nonneg (by omega) (by omega)
        have hCrossed : (-v - 1) * (-w - 1) = v * w + v + w + 1 := by ring
        have hExpanded : (v + 4294967296) * (w + 4294967296) =
            v * w + 4294967296 * (v + w) + 18446744073709551616 := by ring
        rw [hV, hW, hExpanded] at hFits
        omega
      · exact .inr (.inl hZeroW)
      · have := Int.mul_neg_of_neg_of_pos hNeg hPosW
        omega
    · exact .inl hZero
    · rcases Int.lt_or_le w 0 with hNegW | hNonnegW
      · have := Int.mul_neg_of_pos_of_neg hPos hNegW
        omega
      · exact .inr (.inr ⟨by omega, hNonnegW⟩)
  · rintro (rfl | rfl | ⟨hV, hW⟩)
    · exact ⟨by simp [FitsWord], by simp⟩
    · exact ⟨by simp [FitsWord], by simp⟩
    · have hProduct : 0 ≤ v * w := Int.mul_nonneg hV hW
      have hReadV : v % 4294967296 = v := by omega
      have hReadW : w % 4294967296 = w := by omega
      rw [hReadV, hReadW]
      exact ⟨FitsWord.mono (m := 32) ⟨hLow, hHigh⟩ (by decide), by omega⟩

theorem div_read_iff (hv : gxINT32.InRange v) (hw : gxINT32.InRange w) (hDivisor : w ≠ 0)
    (hExact : gxINT32.InRange (v.tdiv w)) :
    (FitsWord 64 ((v % 4294967296).tdiv (w % 4294967296)) ∧
      (v % 4294967296).tdiv (w % 4294967296) % 4294967296 = v.tdiv w) ↔
        0 ≤ v ∧ (0 < w ∨ v < -w) ∨ v = w := by
  obtain ⟨hLowV, hHighV⟩ : -2147483648 ≤ v ∧ v < 2147483648 := hv
  obtain ⟨hLowW, hHighW⟩ : -2147483648 ≤ w ∧ w < 2147483648 := hw
  obtain ⟨hLow, hHigh⟩ : -2147483648 ≤ v.tdiv w ∧ v.tdiv w < 2147483648 := hExact
  have hDividend : 0 ≤ v % 4294967296 := by omega
  have hPositive : 0 < w % 4294967296 := by omega
  have hQuotient : 0 ≤ (v % 4294967296).tdiv (w % 4294967296) :=
    Int.tdiv_nonneg hDividend hPositive.le
  have hBelow : (v % 4294967296).tdiv (w % 4294967296) ≤ v % 4294967296 :=
    Int.tdiv_le_self _ hDividend
  have hFits : FitsWord 64 ((v % 4294967296).tdiv (w % 4294967296)) :=
    FitsWord.mono (m := 34) ⟨by omega, by omega⟩ (by decide)
  have hResult : (v % 4294967296).tdiv (w % 4294967296) % 4294967296 =
      (v % 4294967296).tdiv (w % 4294967296) := Int.emod_eq_of_lt hQuotient (by omega)
  rw [hResult, and_iff_right hFits, Int.tdiv_eq_ediv_of_nonneg hDividend]
  rcases Int.lt_or_le v 0 with hNegV | hNonnegV
  · have hReadV : v % 4294967296 = v + 4294967296 := by omega
    rcases Int.lt_or_gt_of_ne hDivisor with hNegW | hPosW
    · have hReadW : w % 4294967296 = w + 4294967296 := by omega
      have hTrunc : v.tdiv w = (-v) / (-w) := by
        rw [← Int.neg_tdiv_neg, Int.tdiv_eq_ediv_of_nonneg (by omega)]
      rw [hReadV, hReadW, hTrunc]
      rcases Int.lt_trichotomy v w with hLt | rfl | hGt
      · have hRead : (v + 4294967296) / (w + 4294967296) = 0 :=
          Int.ediv_eq_zero_of_lt (by omega) (by omega)
        have hTrue : 1 ≤ (-v) / (-w) := (Int.le_ediv_iff_mul_le (by omega)).mpr (by omega)
        omega
      · rw [Int.ediv_self (by omega), Int.ediv_self (by omega)]
        simp
      · have hRead : 1 ≤ (v + 4294967296) / (w + 4294967296) :=
          (Int.le_ediv_iff_mul_le (by omega)).mpr (by omega)
        have hTrue : (-v) / (-w) = 0 := Int.ediv_eq_zero_of_lt (by omega) (by omega)
        omega
    · have hReadW : w % 4294967296 = w := by omega
      have hTrunc : v.tdiv w = -((-v) / w) := by
        rw [← Int.tdiv_eq_ediv_of_nonneg (by omega), Int.neg_tdiv, Int.neg_neg]
      have hTrue : 0 ≤ (-v) / w := Int.ediv_nonneg (by omega) (by omega)
      have hRead : 1 ≤ (v + 4294967296) / w :=
        (Int.le_ediv_iff_mul_le hPosW).mpr (by omega)
      rw [hReadV, hReadW, hTrunc]
      omega
  · have hReadV : v % 4294967296 = v := by omega
    rcases Int.lt_or_gt_of_ne hDivisor with hNegW | hPosW
    · have hReadW : w % 4294967296 = w + 4294967296 := by omega
      have hRead : v / (w + 4294967296) = 0 := Int.ediv_eq_zero_of_lt hNonnegV (by omega)
      have hTrunc : v.tdiv w = -(v / (-w)) := by
        rw [← Int.tdiv_eq_ediv_of_nonneg hNonnegV, Int.tdiv_neg, Int.neg_neg]
      rw [hReadV, hReadW, hRead, hTrunc]
      by_cases hSmall : v < -w
      · have hTrue : v / (-w) = 0 := Int.ediv_eq_zero_of_lt hNonnegV hSmall
        omega
      · have hTrue : 1 ≤ v / (-w) := (Int.le_ediv_iff_mul_le (by omega)).mpr (by omega)
        omega
    · have hReadW : w % 4294967296 = w := by omega
      rw [hReadV, hReadW, Int.tdiv_eq_ediv_of_nonneg hNonnegV]
      simp [hNonnegV, hPosW]

theorem add_read_iff (hExact : gxINT32.InRange (v + w)) :
    (FitsWord 64 (v % 4294967296 + w % 4294967296) ∧
      (v % 4294967296 + w % 4294967296) % 4294967296 = v + w) ↔ -w ≤ v := by
  obtain ⟨hLow, hHigh⟩ : -2147483648 ≤ v + w ∧ v + w < 2147483648 := hExact
  have hFits : FitsWord 64 (v % 4294967296 + w % 4294967296) :=
    FitsWord.mono (m := 34) ⟨by omega, by omega⟩ (by decide)
  rw [and_iff_right hFits]
  omega

theorem sub_read_iff (hExact : gxINT32.InRange (v - w)) :
    (FitsWord 64 (v % 4294967296 - w % 4294967296) ∧
      (v % 4294967296 - w % 4294967296) % 4294967296 = v - w) ↔ w ≤ v := by
  obtain ⟨hLow, hHigh⟩ : -2147483648 ≤ v - w ∧ v - w < 2147483648 := hExact
  have hFits : FitsWord 64 (v % 4294967296 - w % 4294967296) :=
    FitsWord.mono (m := 34) ⟨by omega, by omega⟩ (by decide)
  rw [and_iff_right hFits]
  omega

end Read

theorem computes_iff (C : SignedClass) {op : Assignment} {v w : Int} (hv : C.InRange v)
    (hw : C.InRange w) (hDiv : op = .div → w ≠ 0) (hExact : C.InRange (op.exact v w)) :
    (C.assign op (C.unPackBits v) (C.unPackBits w)).map C.packBits = some (op.exact v w) ↔
      C.Computes op v w := by
  rw [assign_eq hw hDiv]
  by_cases hC : C = gxINT32
  · subst hC
    rw [stored_iff, gxINT32_reads, gxINT32_reads]
    cases op with
    | add => simpa only [Computes, Assignment.exact, true_imp_iff] using add_read_iff hExact
    | sub => simpa only [Computes, Assignment.exact, true_imp_iff] using sub_read_iff hExact
    | mul => simpa only [Computes, Assignment.exact, true_imp_iff] using mul_read_iff hv hw hExact
    | div => simpa only [Computes, Assignment.exact, true_imp_iff] using div_read_iff hv hw (hDiv rfl) hExact
  · rw [reads_back hC hv, reads_back hC hw, checkedWord_of_fits (fits_promoted hExact)]
    simp only [Option.map_some, reads_back hC hExact, true_iff]
    cases op <;> exact fun hIs => absurd hIs hC

/-- The portable signed classes are the exact integers, but a `gxINT32` is not where negative
values are read. -/
theorem portable_exact_iff (C : SignedClass) :
    (∀ v, C.InRange v → (C.packBits (C.unPackBits v) = v ↔ C.Keeps v)) ∧
    (∀ v w, C.InRange v → C.InRange w →
      ((∀ op, C.compare op (C.unPackBits v) (C.unPackBits w) = op.exact v w) ↔
        C.KeepsOrder v w)) ∧
    ∀ op v w, C.InRange v → C.InRange w → (op = .div → w ≠ 0) → C.InRange (op.exact v w) →
      ((C.assign op (C.unPackBits v) (C.unPackBits w)).map C.packBits = some (op.exact v w) ↔
        C.Computes op v w) :=
  ⟨fun _ => C.keeps_iff, fun _ _ => C.keepsOrder_iff, fun _ _ _ => C.computes_iff⟩

/-- `-1` comes back as `4294967295`. -/
theorem gxINT32_reads_negative :
    ¬ ∀ C : SignedClass,
      (∀ v, C.InRange v → C.packBits (C.unPackBits v) = v) ∧
      (∀ v w, C.InRange v → C.InRange w →
        ∀ op, C.compare op (C.unPackBits v) (C.unPackBits w) = op.exact v w) ∧
      ∀ op v w, C.InRange v → C.InRange w → (op = .div → w ≠ 0) → C.InRange (op.exact v w) →
        (C.assign op (C.unPackBits v) (C.unPackBits w)).map C.packBits = some (op.exact v w) := by
  intro h
  have hRead : gxINT32.packBits (gxINT32.unPackBits (-1)) = 4294967295 := by decide
  have hMinusOne := (h gxINT32).1 (-1) (by decide)
  omega

/-- A `gxINT16` keeps `-1`, and a `gxINT32` computes `7 - 5`. -/
theorem portable_exact_iff_minus_one :
    gxINT16.packBits (gxINT16.unPackBits (-1)) = -1 ∧
    (gxINT32.assign .sub (gxINT32.unPackBits 7) (gxINT32.unPackBits 5)).map gxINT32.packBits =
      some 2 :=
  ⟨((portable_exact_iff gxINT16).1 (-1) (by decide)).mpr nofun,
    ((portable_exact_iff gxINT32).2.2 .sub 7 5 (by decide) (by decide) nofun (by decide)).mpr
      fun _ => by decide⟩

end SignedClass

end DataReel
