import Mathlib.Algebra.GroupWithZero.Nat
import Mathlib.Data.List.DropRight
import Mathlib.Data.List.Infix

/-! # The strings of the network classes

A `std::string` is the list of its bytes, written as characters. The functions
are those of `strutil.h`, the C library and `gxs_b64.cpp`.
-/

namespace DataReel

abbrev Text := List Char

namespace Text

def isSpace (c : Char) : Bool :=
  c = ' ' || c = '\t' || c = '\r' || c = '\n' || c = '\x0c' || c = '\x0b'

def toUpper (c : Char) : Char :=
  if 'a' ≤ c ∧ c ≤ 'z' then Char.ofNat (c.toNat - 'a'.toNat + 'A'.toNat) else c

def toLower (c : Char) : Char :=
  if 'A' ≤ c ∧ c ≤ 'Z' then Char.ofNat (c.toNat - 'A'.toNat + 'a'.toNat) else c

def upper (s : Text) : Text := s.map toUpper

def lower (s : Text) : Text := s.map toLower

def trimLeft (s : Text) : Text := s.dropWhile isSpace

def trimRight (s : Text) : Text := s.rdropWhile isSpace

def trim (s : Text) : Text := trimRight (trimLeft s)

def iequals (a b : Text) : Bool := lower a = lower b

/-- `ifind`, as a truth value -/
def iinfix (p s : Text) : Bool := s.tails.any fun t => (lower p).isPrefixOf (lower t)

def startsWith (s p : Text) : Bool := p.isPrefixOf s

def split (s : Text) (sep : Char) (skipEmpty : Bool) : List Text :=
  let fields := s.splitOn sep
  if skipEmpty then fields.filter fun f => !f.isEmpty else fields

/-- The value of a row of decimal digits, up to the first character that is none. -/
def digits : Nat → Text → Nat
  | n, [] => n
  | n, c :: s => if c.isDigit then digits (10 * n + (c.toNat - '0'.toNat)) s else n

/-- `std::atoi` -/
def atoi (s : Text) : Int :=
  match trimLeft s with
  | '-' :: t => -digits 0 t
  | '+' :: t => digits 0 t
  | t => digits 0 t

/-- `std::to_string` -/
def ofInt (n : Int) : Text := (toString n).toList

theorem ofInt_natCast (n : Nat) : ofInt n = Nat.toDigits 10 n := by
  change (toString n).toList = _
  rw [Nat.toString_eq_ofList_toDigits, String.toList_ofList]

/-- The line break of the protocols. -/
def crlf : Text := ['\r', '\n']

/-- A line break is among the characters. -/
def hasBreak (s : Text) : Bool := s.contains '\r' || s.contains '\n'

theorem toNat_ofNat_byte {n : Nat} (h : n < 256) : (Char.ofNat n).toNat = n := by
  have hAll : ∀ n < 256, (Char.ofNat n).toNat = n := by decide +kernel
  exact hAll n h

def base64Chars : Text :=
  "ABCDEFGHIJKLMNOPQRSTUVWXYZabcdefghijklmnopqrstuvwxyz0123456789+/".toList

def base64Char (v : Nat) : Char := base64Chars.getD (v % 64) '='

def base64Encode : Text → Text
  | a :: b :: c :: s =>
    let v := a.toNat * 65536 + b.toNat * 256 + c.toNat
    base64Char (v / 262144) :: base64Char (v / 4096) :: base64Char (v / 64) :: base64Char v ::
      base64Encode s
  | [a, b] =>
    let v := a.toNat * 65536 + b.toNat * 256
    [base64Char (v / 262144), base64Char (v / 4096), base64Char (v / 64), '=']
  | [a] =>
    let v := a.toNat * 65536
    [base64Char (v / 262144), base64Char (v / 4096), '=', '=']
  | [] => []

end Text

end DataReel
