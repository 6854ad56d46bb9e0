import DataReel.Library.Cut
import DataReel.Net.Base64
import DataReel.Net.HttpText

/-! # Uniform resource locators -/

namespace DataReel

/-- `gxsURLInfo` -/
structure URLInfo where
  scheme : Text
  user : Text
  passwd : Text
  host : Text
  port : Nat
  portGiven : Bool
  path : Text
  query : Text
  fragment : Text
  deriving DecidableEq

namespace URL

def defaultPort (scheme : Text) : Nat :=
  let s := Text.lower scheme
  if s = "https".toList ∨ s = "wss".toList then 443
  else if s = "http".toList ∨ s = "ws".toList then 80
  else if s = "ftps".toList then 990
  else if s = "ftp".toList then 21
  else if s = "smtps".toList then 465
  else if s = "smtp".toList then 25
  else if s = "pop3s".toList then 995
  else if s = "pop3".toList then 110
  else if s = "imaps".toList then 993
  else if s = "telnet".toList then 23
  else 0

def isUnreserved (c : Char) : Bool :=
  ('A' ≤ c && c ≤ 'Z') || ('a' ≤ c && c ≤ 'z') || ('0' ≤ c && c ≤ '9') || c = '-' || c = '.' || c = '_' || c = '~'

def hexDigits : Text := "0123456789ABCDEF".toList

def hexDigit (n : Nat) : Char := hexDigits.getD n '0'

def encode : Text → Text
  | [] => []
  | c :: s =>
    if isUnreserved c then c :: encode s
    else '%' :: hexDigit (c.toNat / 16) :: hexDigit (c.toNat % 16) :: encode s

/-- `hexval` -/
def hexValue (c : Char) : Option Nat :=
  if '0' ≤ c ∧ c ≤ '9' then some (c.toNat - '0'.toNat)
  else if 'a' ≤ c ∧ c ≤ 'f' then some (c.toNat - 'a'.toNat + 10)
  else if 'A' ≤ c ∧ c ≤ 'F' then some (c.toNat - 'A'.toNat + 10)
  else none

/-- A character that starts no encoded one. -/
def plain (plusIsSpace : Bool) (c : Char) : Char := if plusIsSpace ∧ c = '+' then ' ' else c

def decode (plusIsSpace : Bool) : Text → Text
  | '%' :: a :: b :: s =>
    match hexValue a, hexValue b with
    | some x, some y => Char.ofNat (x * 16 + y) :: decode plusIsSpace s
    | _, _ => '%' :: decode plusIsSpace (a :: b :: s)
  | c :: s => plain plusIsSpace c :: decode plusIsSpace s
  | [] => []

/-! ## The parser -/

def isSchemeChar (c : Char) : Bool :=
  ('a' ≤ c && c ≤ 'z') || ('0' ≤ c && c ≤ '9') || c = '+' || c = '-' || c = '.'

/-- The parts of what follows the scheme. -/
structure Parts where
  authority : Text
  path : Text
  query : Text
  fragment : Text

/-- The fragment and query end the URL in that order, and the authority runs to the first `/`. -/
def parts (rest : Text) : Parts :=
  let h := beforeAfter '#' rest
  let q := beforeAfter '?' h.1
  ⟨q.1.takeWhile (· ≠ '/'), q.1.dropWhile (· ≠ '/'), q.2, h.2⟩

/-- The text of the user and of the password, if there is one, and what follows it. -/
def userinfo (authority : Text) : (Text × Text) × Text :=
  match rcut '@' authority with
  | some (info, place) => (beforeAfter ':' info, place)
  | none => (([], []), authority)

/-- The text of the host and of the port. -/
def hostPort : Text → Option (Text × Text)
  | '[' :: s =>
    match cut ']' s with
    | some (host, []) => some (host, [])
    | some (host, ':' :: port) => some (host, port)
    | _ => none
  | place => some ((rcut ':' place).getD (place, []))

def portNumber (port : Nat) : Text → Option Nat
  | [] => some port
  | c :: s =>
    if '0' ≤ c ∧ c ≤ '9' then
      let port := port * 10 + (c.toNat - '0'.toNat)
      if 65535 < port then none else portNumber port s
    else none

/-- The port and whether it is given. -/
def portOf (scheme port : Text) : Option (Nat × Bool) :=
  if port.isEmpty then some (defaultPort scheme, false)
  else
    match portNumber 0 port with
    | some 0 => none
    | some n => some (n, true)
    | none => none

def parseParts (scheme : Text) (p : Parts) : Option URLInfo :=
  let info := userinfo p.authority
  match hostPort info.2 with
  | none => none
  | some (host, port) =>
    if host.isEmpty then none
    else
      match portOf scheme port with
      | none => none
      | some (port, portGiven) =>
        some
          { scheme, user := decode false info.1.1, passwd := decode false info.1.2
            host := Text.lower host, port, portGiven, path := p.path, query := p.query
            fragment := p.fragment }

def parse (url : Text) : Option URLInfo :=
  match cutAt "://".toList (Text.trim url) with
  | none => none
  | some (start, rest) =>
    let scheme := Text.lower start
    if start.isEmpty ∨ !scheme.all isSchemeChar then none else parseParts scheme (parts rest)

end URL

namespace URLInfo

variable (u : URLInfo)

def pathAndQuery : Text :=
  (if u.path.isEmpty then ['/'] else u.path) ++ if u.query.isEmpty then [] else '?' :: u.query

/-- The port, where `HostAndPort` writes it. -/
def portText : Text :=
  if u.portGiven ∧ u.port ≠ URL.defaultPort u.scheme then ':' :: Text.ofInt u.port else []

/-- The host, in brackets where it has a colon. -/
def hostText : Text := if ':' ∈ u.host then '[' :: u.host ++ [']'] else u.host

def hostAndPort : Text := u.hostText ++ u.portText

/-- The user and the password, where `ToString` writes them. -/
def userText : Text :=
  if u.user.isEmpty then []
  else URL.encode u.user ++ (if u.passwd.isEmpty then [] else ':' :: URL.encode u.passwd) ++ ['@']

def toString : Text :=
  u.scheme ++ "://".toList ++ u.userText ++ u.hostAndPort ++ u.pathAndQuery

end URLInfo

namespace URL

def resolve (base : URLInfo) (location : Text) : Text :=
  let loc := Text.trim location
  if (cutAt "://".toList loc).isSome then loc
  else
    let before := base.scheme ++ "://".toList ++ base.hostAndPort
    if Text.startsWith loc "//".toList then base.scheme ++ ':' :: loc
    else if Text.startsWith loc "/".toList then before ++ loc
    else
      let dir := if base.path.isEmpty then ['/'] else base.path
      before ++ dir.rdropWhile (· ≠ '/') ++ loc

/-! ## Encoded text -/

variable {c : Char} {s : Text} {u : URLInfo}

theorem hexValue_hexDigit : ∀ n < 16, hexValue (hexDigit n) = some n := by decide

theorem isUnreserved_hexDigit : ∀ n < 16, isUnreserved (hexDigit n) = true := by decide

theorem decode_cons (h : c ≠ '%') (plus : Bool) :
    decode plus (c :: s) = plain plus c :: decode plus s := by
  rw [decode.eq_def]
  split
  · next hEq => exact absurd (List.cons.inj hEq).1 h
  · next hEq =>
    cases hEq
    rfl
  · next hEq => cases hEq

theorem decode_encode (hs : Text.IsBytes s) : decode false (encode s) = s := by
  induction s with
  | nil => rfl
  | cons c s ih =>
    have hRest := ih fun d hd => hs d (List.mem_cons_of_mem c hd)
    have hByte := hs c List.mem_cons_self
    rw [encode]
    split
    · next hPlain =>
      rw [decode_cons (by rintro rfl; revert hPlain; decide), hRest]
      rfl
    · have hChar : Char.ofNat (c.toNat / 16 * 16 + c.toNat % 16) = c := Text.ofNat_byte (by omega)
      rw [decode]
      simp only [hexValue_hexDigit (c.toNat / 16) (by omega), hexValue_hexDigit (c.toNat % 16) (by omega)]
      rw [hRest, hChar]

theorem encode_unreserved (hs : Text.IsBytes s) (hc : c ∈ encode s) : isUnreserved c = true ∨ c = '%' := by
  induction s with
  | nil => cases hc
  | cons d s ih =>
    have hByte := hs d List.mem_cons_self
    have hRest := ih fun e he => hs e (List.mem_cons_of_mem d he)
    rw [encode] at hc
    split at hc
    · next hPlain =>
      rcases List.mem_cons.mp hc with rfl | hc
      · exact Or.inl hPlain
      · exact hRest hc
    · simp only [List.mem_cons] at hc
      rcases hc with rfl | rfl | rfl | hc
      · exact Or.inr rfl
      · exact Or.inl (isUnreserved_hexDigit _ (by omega))
      · exact Or.inl (isUnreserved_hexDigit _ (by omega))
      · exact hRest hc

theorem encode_eq_nil : encode s = [] ↔ s = [] := by
  cases s with
  | nil => exact Iff.rfl
  | cons c s =>
    rw [encode]
    split <;> simp

theorem decode_eq_nil (plus : Bool) : decode plus s = [] ↔ s = [] := by
  cases s with
  | nil => exact Iff.rfl
  | cons c s =>
    rw [decode.eq_def]
    split
    · split <;> simp
    · simp
    · next hEq => cases hEq

theorem hexValue_lt {n : Nat} (h : hexValue c = some n) : n < 16 := by
  have h0 : '0'.toNat = 48 := rfl
  have h9 : '9'.toNat = 57 := rfl
  have ha : 'a'.toNat = 97 := rfl
  have hf : 'f'.toNat = 102 := rfl
  have hA : 'A'.toNat = 65 := rfl
  have hF : 'F'.toNat = 70 := rfl
  unfold hexValue at h
  simp only [Char.le_def, UInt32.le_iff_toNat_le, Char.toNat_val] at h
  split_ifs at h <;> cases h <;> omega

theorem isBytes_decode (hs : Text.IsBytes s) (plus : Bool) : Text.IsBytes (decode plus s) := by
  induction s using decode.induct with
  | case1 a b s x y hx hy ih =>
    rw [decode, hx, hy]
    intro d hd
    rcases List.mem_cons.mp hd with rfl | hd
    · have hxLt := hexValue_lt hx
      have hyLt := hexValue_lt hy
      rw [Text.toNat_ofNat_byte (by omega)]
      omega
    · exact ih (fun e he => hs e (by simp [he])) d hd
  | case2 a b s hNone ih =>
    rw [decode]
    split
    · next x y hx hy => exact absurd hy (hNone x y hx)
    · intro d hd
      rcases List.mem_cons.mp hd with rfl | hd
      · decide
      · exact ih (fun e he => hs e (List.mem_cons_of_mem _ he)) d hd
  | case3 c s hOther ih =>
    rw [decode.eq_2 plus c s hOther]
    intro d hd
    rcases List.mem_cons.mp hd with rfl | hd
    · unfold plain
      split
      · decide
      · exact hs c List.mem_cons_self
    · exact ih (fun e he => hs e (List.mem_cons_of_mem _ he)) d hd
  | case4 => exact nofun

end URL

end DataReel
