import Mathlib.Data.Nat.Init
import Mathlib.Tactic.Ring

/-! # Bytes at addresses

A store of bytes without bounds, with little-endian numbers and rows of 64-bit
words in it. A write is seen by reads of the same place and by no other.
-/

namespace DataReel

/-- Bytes by their addresses. -/
abbrev Bytes := Int → UInt8

namespace Bytes

variable (m : Bytes)

/-- The little-endian number in the `n` bytes from `a` on. -/
def read : Int → Nat → Nat
  | _, 0 => 0
  | a, n + 1 => (m a).toNat + 256 * read (a + 1) n

def write (a : Int) (n v : Nat) : Bytes := fun x =>
  if a ≤ x ∧ x < a + n then UInt8.ofNat (v / 256 ^ (x - a).toNat) else m x

/-- The bytes of a list from `a` on. -/
def put (a : Int) (l : List UInt8) : Bytes := fun x =>
  if a ≤ x ∧ x < a + l.length then l.getD (x - a).toNat 0 else m x

/-- The `n` bytes from `a` on. -/
def get (a : Int) (n : Nat) : List UInt8 := (List.range n).map fun i : Nat => m (a + i)

def readWords : Int → Nat → List Nat
  | _, 0 => []
  | a, n + 1 => m.read a 8 :: readWords (a + 8) n

def writeWords (m : Bytes) : Int → List Nat → Bytes
  | _, [] => m
  | a, w :: l => writeWords (m.write a 8 w) (a + 8) l

variable {m} {m' : Bytes} {a b x : Int} {n k v : Nat} {l : List Nat}

/-! ## Numbers -/

theorem read_congr (h : ∀ x, a ≤ x → x < a + n → m x = m' x) : m.read a n = m'.read a n := by
  induction n generalizing a with
  | zero => rfl
  | succ n ih =>
    rw [read, read, h a (by omega) (by omega), ih fun x hx hx' => h x (by omega) (by omega)]

theorem write_outside (h : x < a ∨ a + n ≤ x) : m.write a n v x = m x := by
  rw [write, if_neg (by omega)]

theorem put_outside {l : List UInt8} (h : x < a ∨ a + l.length ≤ x) : m.put a l x = m x := by
  rw [put, if_neg (by omega)]

theorem get_length : (m.get a n).length = n := by
  rw [get, List.length_map, List.length_range]

theorem get_congr (h : ∀ x, a ≤ x → x < a + n → m x = m' x) : m.get a n = m'.get a n := by
  refine List.map_congr_left fun i hi => h _ ?_ ?_
  · omega
  · have := List.mem_range.mp hi
    omega

theorem get_put_self {l : List UInt8} : (m.put a l).get a l.length = l := by
  refine List.ext_getElem get_length fun i hi hi' => ?_
  have hAt : (a + (i : Int) - a).toNat = i := by omega
  simp only [get, List.getElem_map, List.getElem_range]
  rw [put, if_pos (by omega), hAt, List.getD_eq_getElem?_getD,
    List.getElem?_eq_getElem hi', Option.getD_some]

theorem get_succ : m.get a (n + 1) = m a :: m.get (a + 1) n := by
  rw [get, List.range_succ_eq_map, List.map_cons, List.map_map]
  congr 1
  · simp
  · refine List.map_congr_left fun i _ => ?_
    change m (a + ((i + 1 : Nat) : Int)) = m (a + 1 + (i : Int))
    congr 1
    omega

theorem get_add : m.get a (n + k) = m.get a n ++ m.get (a + n) k := by
  induction n generalizing a with
  | zero => simp [get]
  | succ n ih =>
    have hStart : a + 1 + (n : Int) = a + (n + 1 : Nat) := by omega
    rw [Nat.succ_add, get_succ, ih, get_succ, hStart]
    rfl

theorem put_append {l l' : List UInt8} : m.put a (l ++ l') = (m.put a l).put (a + l.length) l' := by
  funext x
  rw [put, put, put, List.length_append]
  by_cases hLow : a ≤ x ∧ x < a + l.length
  · have hIndex : (x - a).toNat < l.length := by omega
    rw [if_pos (by omega), if_neg (by omega), if_pos hLow, List.getD_eq_getElem?_getD,
      List.getElem?_append_left hIndex, List.getD_eq_getElem?_getD]
  · by_cases hHigh : a + l.length ≤ x ∧ x < a + l.length + l'.length
    · have hIndex : l.length ≤ (x - a).toNat := by omega
      have hRest : (x - a).toNat - l.length = (x - (a + l.length)).toNat := by omega
      rw [if_pos (by omega), if_pos hHigh, List.getD_eq_getElem?_getD,
        List.getElem?_append_right hIndex, hRest, List.getD_eq_getElem?_getD]
    · rw [if_neg (by omega), if_neg hHigh, if_neg hLow]

theorem get_put {l : List UInt8} (hLow : a ≤ b) (hHigh : b + l.length ≤ a + n) :
    (m.put b l).get a n =
      (m.get a n).take (b - a).toNat ++ l ++ (m.get a n).drop ((b - a).toNat + l.length) := by
  obtain ⟨i, hi⟩ : ∃ i : Nat, b = a + i := ⟨(b - a).toNat, by omega⟩
  obtain ⟨k, hk⟩ : ∃ k : Nat, n = i + (l.length + k) := ⟨n - i - l.length, by omega⟩
  have hIndex : (b - a).toNat = i := by omega
  have hSplit : m.get a n = m.get a i ++ (m.get b l.length ++ m.get (b + l.length) k) := by
    rw [hk, get_add, get_add, ← hi]
  have hBefore : (m.put b l).get a i = m.get a i :=
    get_congr fun x _ hx => put_outside (.inl (by omega))
  have hBehind : (m.put b l).get (b + l.length) k = m.get (b + l.length) k :=
    get_congr fun x hx _ => put_outside (.inr hx)
  have hTake : (m.get a n).take i = m.get a i := by
    rw [hSplit, List.take_left' get_length]
  have hDrop : (m.get a n).drop (i + l.length) = m.get (b + l.length) k := by
    rw [hSplit, ← List.drop_drop, List.drop_left' get_length, List.drop_left' get_length]
  rw [hIndex, hTake, hDrop, hk, get_add, get_add, ← hi, hBefore, get_put_self, hBehind,
    List.append_assoc]

theorem splice_drop {F A buf : List UInt8} {f e : Nat} (hFirst : F.length = f + e) :
    ((F ++ A).take f ++ buf ++ (F ++ A).drop (f + buf.length)).drop (f + e) =
      buf.drop e ++ A.drop (buf.length - e) := by
  have hTake : ((F ++ A).take f).length = f := by
    rw [List.length_take, List.length_append]
    omega
  have hRest : F.length ≤ f + buf.length + (e - buf.length) := by omega
  have hIndex : f + buf.length + (e - buf.length) - F.length = buf.length - e := by omega
  rw [List.append_assoc, ← List.drop_drop, List.drop_left' hTake, List.drop_append, List.drop_drop,
    List.drop_append, List.drop_eq_nil_of_le hRest, hIndex, List.nil_append]

theorem splice_take_eq_iff {F A buf : List UInt8} {f e : Nat} (hFirst : F.length = f + e) :
    ((F ++ A).take f ++ buf ++ (F ++ A).drop (f + buf.length)).take (f + e) = F ↔
      buf.take e <+: F.drop f := by
  have hTake : ((F ++ A).take f).length = f := by
    rw [List.length_take, List.length_append]
    omega
  have hSame : (F ++ A).take f = F.take f := List.take_append_of_le_length (by omega)
  have hRest : ((F ++ A).drop (f + buf.length)).take (e - buf.length) = F.drop (f + buf.length) := by
    rw [List.drop_append, List.take_append, List.length_drop, List.take_of_length_le (by
      rw [List.length_drop]
      omega)]
    have hNone : e - buf.length - (F.length - (f + buf.length)) = 0 := by omega
    rw [hNone, List.take_zero, List.append_nil]
  have hAll : ((F ++ A).take f ++ buf ++ (F ++ A).drop (f + buf.length)).take (f + e) =
      F.take f ++ (buf.take e ++ F.drop (f + buf.length)) := by
    have hFront : ((F ++ A).take f).take (f + e) = F.take f := by
      rw [List.take_of_length_le (by omega), hSame]
    have hBehind : (buf ++ (F ++ A).drop (f + buf.length)).take e =
        buf.take e ++ F.drop (f + buf.length) := by
      rw [List.take_append, hRest]
    rw [List.append_assoc, List.take_append, hTake, Nat.add_sub_cancel_left, hFront, hBehind]
  rw [hAll]
  constructor
  · intro hEq
    have hEq' : F.take f ++ (buf.take e ++ F.drop (f + buf.length)) = F.take f ++ F.drop f :=
      hEq.trans (List.take_append_drop _ _).symm
    exact ⟨_, List.append_cancel_left hEq'⟩
  · rintro ⟨t, ht⟩
    have hLength := congrArg List.length ht
    have hTail : t = F.drop (f + buf.length) := by
      rw [← List.drop_drop, ← ht, List.drop_append, List.drop_eq_nil_of_le (by
        rw [List.length_take]
        omega), List.nil_append, List.length_take]
      by_cases hShort : buf.length ≤ e
      · rw [Nat.min_eq_right hShort, Nat.sub_self, List.drop_zero]
      · simp only [List.length_append, List.length_take, List.length_drop] at hLength
        have hNil : t = [] := List.length_eq_zero_iff.mp (by omega)
        rw [hNil, List.drop_nil]
    rw [← hTail, ht, List.take_append_drop]

/-! ## Numbers as lists of bytes -/

/-- The little-endian number of a list of bytes. -/
def leNat : List UInt8 → Nat
  | [] => 0
  | b :: l => b.toNat + 256 * leNat l

/-- The `n` bytes of a number. -/
def leBytes : Nat → Nat → List UInt8
  | 0, _ => []
  | n + 1, v => UInt8.ofNat v :: leBytes n (v / 256)

theorem leBytes_length : (leBytes n v).length = n := by
  induction n generalizing v with
  | zero => rfl
  | succ n ih => rw [leBytes, List.length_cons, ih]

theorem leNat_leBytes_mod : leNat (leBytes n v) = v % 256 ^ n := by
  induction n generalizing v with
  | zero => rw [leBytes, leNat, Nat.pow_zero, Nat.mod_one]
  | succ n ih =>
    have hSplit : v % 256 ^ (n + 1) = v % 256 + 256 * (v / 256 % 256 ^ n) := by
      rw [Nat.pow_succ', Nat.mod_mul]
    rw [leBytes, leNat, ih, UInt8.toNat_ofNat', hSplit]

theorem leNat_leBytes (hv : v < 256 ^ n) : leNat (leBytes n v) = v := by
  rw [leNat_leBytes_mod, Nat.mod_eq_of_lt hv]

theorem leNat_lt (l : List UInt8) : leNat l < 256 ^ l.length := by
  induction l with
  | nil => exact Nat.one_pos
  | cons b l ih =>
    have hByte := b.toNat_lt
    rw [leNat, List.length_cons, Nat.pow_succ]
    omega

theorem leBytes_leNat (l : List UInt8) : leBytes l.length (leNat l) = l := by
  induction l with
  | nil => rfl
  | cons b l ih =>
    have hByte := b.toNat_lt
    have hRest : (b.toNat + 256 * leNat l) / 256 = leNat l := by omega
    have hFirst : UInt8.ofNat (b.toNat + 256 * leNat l) = b := by
      apply UInt8.toNat_inj.mp
      rw [UInt8.toNat_ofNat']
      omega
    rw [List.length_cons, leNat, leBytes, hRest, hFirst, ih]

/-! ## Writes of numbers -/

theorem read_write_apart (h : a + n ≤ b ∨ b + k ≤ a) :
    (m.write b k v).read a n = m.read a n :=
  read_congr fun x hx hx' => write_outside (by omega)

/-- The bytes after the first of a number are those of its quotient. -/
theorem write_succ (hx : a + 1 ≤ x) (hx' : x < a + 1 + n) :
    m.write a (n + 1) v x = m.write (a + 1) n (v / 256) x := by
  obtain ⟨i, hi⟩ : ∃ i : Nat, (x - a).toNat = i + 1 := ⟨(x - a).toNat - 1, by omega⟩
  have hi' : (x - (a + 1)).toNat = i := by omega
  rw [write, write, if_pos (by omega), if_pos (by omega), hi, hi', Nat.div_div_eq_div_mul,
    Nat.pow_succ, Nat.mul_comm]

theorem read_write_self (hv : v < 256 ^ n) : (m.write a n v).read a n = v := by
  induction n generalizing a v with
  | zero =>
    rw [Nat.pow_zero] at hv
    rw [read]
    omega
  | succ n ih =>
    have hRest : v / 256 < 256 ^ n := by
      rw [Nat.div_lt_iff_lt_mul (by decide), ← Nat.pow_succ]
      exact hv
    have hFirst : (m.write a (n + 1) v a).toNat = v % 256 := by
      rw [write, if_pos (by omega)]
      simp
    have hOthers : (m.write a (n + 1) v).read (a + 1) n =
        (m.write (a + 1) n (v / 256)).read (a + 1) n := read_congr fun x => write_succ
    rw [read, hFirst, hOthers, ih hRest]
    omega

theorem read_lt : m.read a n < 256 ^ n := by
  induction n generalizing a with
  | zero => exact Nat.one_pos
  | succ n ih =>
    have hFirst := (m a).toNat_lt
    have hRest := @ih (a + 1)
    rw [read, Nat.pow_succ]
    omega

theorem read_div {i : Nat} (hi : i < n) : m.read a n / 256 ^ i % 256 = (m (a + i)).toNat := by
  induction n generalizing a i with
  | zero => omega
  | succ n ih =>
    have hFirst := (m a).toNat_lt
    rw [read]
    cases i with
    | zero =>
      rw [Nat.pow_zero, Nat.div_one, Nat.add_mul_mod_self_left, Nat.mod_eq_of_lt hFirst, Nat.cast_zero,
        Int.add_zero]
    | succ i =>
      have hRest : ((m a).toNat + 256 * m.read (a + 1) n) / 256 = m.read (a + 1) n := by omega
      rw [Nat.pow_succ, Nat.mul_comm (256 ^ i), ← Nat.div_div_eq_div_mul, hRest,
        ih (Nat.lt_of_succ_lt_succ hi)]
      congr 2
      omega

/-- A number that is written back where it was read changes nothing. -/
theorem write_read : m.write a n (m.read a n) = m := by
  funext x
  by_cases hx : a ≤ x ∧ x < a + n
  · obtain ⟨i, hi⟩ : ∃ i : Nat, (x - a).toNat = i := ⟨_, rfl⟩
    have hByte := read_div (m := m) (a := a) (show i < n by omega)
    have hAt : a + (i : Int) = x := by omega
    rw [write, if_pos hx, hi]
    apply UInt8.toNat.inj
    rw [UInt8.toNat_ofNat', hByte, hAt]
  · exact if_neg hx

/-! ## Words -/

theorem readWords_length : (m.readWords a n).length = n := by
  induction n generalizing a with
  | zero => rfl
  | succ n ih => rw [readWords, List.length_cons, ih]

theorem readWords_congr (h : ∀ x, a ≤ x → x < a + 8 * n → m x = m' x) :
    m.readWords a n = m'.readWords a n := by
  induction n generalizing a with
  | zero => rfl
  | succ n ih =>
    rw [readWords, readWords, read_congr fun x hx hx' => h x (by omega) (by omega),
      ih fun x hx hx' => h x (by omega) (by omega)]

theorem writeWords_outside (h : x < a ∨ a + 8 * l.length ≤ x) : m.writeWords a l x = m x := by
  induction l generalizing a m with
  | nil => rfl
  | cons w l ih =>
    rw [List.length_cons] at h
    rw [writeWords, ih (by omega), write_outside (by omega)]

theorem readWords_writeWords_self (hl : ∀ w ∈ l, w < 2 ^ 64) :
    (m.writeWords a l).readWords a l.length = l := by
  induction l generalizing a m with
  | nil => rfl
  | cons w l ih =>
    have hw : w < 256 ^ 8 := hl w List.mem_cons_self
    have hFirst : ((m.write a 8 w).writeWords (a + 8) l).read a 8 = (m.write a 8 w).read a 8 :=
      read_congr fun x hx hx' => writeWords_outside (by omega)
    rw [writeWords, List.length_cons, readWords, ih fun w hw => hl w (List.mem_cons_of_mem _ hw),
      hFirst, read_write_self hw]

theorem readWords_lt : ∀ w ∈ m.readWords a n, w < 2 ^ 64 := by
  induction n generalizing a with
  | zero => exact nofun
  | succ n ih =>
    intro w hw
    rw [readWords, List.mem_cons] at hw
    cases hw with
    | inl h => exact h ▸ read_lt
    | inr h => exact ih w h

theorem writeWords_readWords : m.writeWords a (m.readWords a n) = m := by
  induction n generalizing a with
  | zero => rfl
  | succ n ih => rw [readWords, writeWords, write_read, ih]

theorem readWords_add : m.readWords a (n + k) = m.readWords a n ++ m.readWords (a + 8 * n) k := by
  induction n generalizing a with
  | zero => simp [readWords]
  | succ n ih =>
    have hStart : a + 8 + 8 * (n : Int) = a + 8 * (n + 1 : Nat) := by omega
    rw [Nat.succ_add, readWords, ih, hStart]
    rfl

end Bytes

/-! ## Signed words -/

/-- The word of a signed 64-bit number. -/
def wordOfInt (i : Int) : Nat := (i % 2 ^ 64).toNat

def intOfWord (w : Nat) : Int := if w < 2 ^ 63 then w else w - 2 ^ 64

theorem wordOfInt_lt (i : Int) : wordOfInt i < 2 ^ 64 := by
  rw [wordOfInt]
  omega

theorem intOfWord_wordOfInt {i : Int} (hLow : -2 ^ 63 ≤ i) (hHigh : i < 2 ^ 63) :
    intOfWord (wordOfInt i) = i := by
  rw [intOfWord, wordOfInt]
  split <;> omega

theorem wordOfInt_intOfWord {w : Nat} (hw : w < 2 ^ 64) : wordOfInt (intOfWord w) = w := by
  rw [intOfWord, wordOfInt]
  split <;> omega

end DataReel
