import DataReel.Net.Text

/-! # Base 64

The decoder takes characters in turn into a word of 32 bits, which keeps what it has read before, and
passes a byte on when it has eight bits more. It counts the padding and does not compare it with the
number of the characters.
-/

namespace DataReel.Text

/-- `gxsBase64Value` -/
def base64Value (c : Char) : Option Nat :=
  if 'A' ≤ c ∧ c ≤ 'Z' then some (c.toNat - 'A'.toNat)
  else if 'a' ≤ c ∧ c ≤ 'z' then some (c.toNat - 'a'.toNat + 26)
  else if '0' ≤ c ∧ c ≤ '9' then some (c.toNat - '0'.toNat + 52)
  else if c = '+' then some 62
  else if c = '/' then some 63
  else none

/-- The locals of `gxsBase64Decode`. -/
structure Base64State where
  v : Nat
  bits : Nat
  pad : Nat
  out : Text

/-- White space that is ignored. -/
def isBlank (c : Char) : Bool := c = ' ' || c = '\t' || c = '\r' || c = '\n'

def base64Loop : Text → Base64State → Option Text
  | [], s => if s.pad ≤ 2 then some s.out else none
  | c :: t, s =>
    if isBlank c then base64Loop t s
    else if c = '=' then base64Loop t { s with pad := s.pad + 1 }
    else if s.pad ≠ 0 then none
    else
      match base64Value c with
      | none => none
      | some d =>
        let v := (s.v * 64 + d) % 2 ^ 32
        let bits := s.bits + 6
        if 8 ≤ bits then
          base64Loop t ⟨v, bits - 8, s.pad, s.out ++ [Char.ofNat (v / 2 ^ (bits - 8) % 256)]⟩
        else base64Loop t ⟨v, bits, s.pad, s.out⟩

/-- `gxsBase64Decode` -/
def base64Decode (s : Text) : Option Text := base64Loop s ⟨0, 0, 0, []⟩

/-- `gxsBasicAuthenticationEncode` -/
def basicAuthenticationEncode (user passwd : Text) : Text :=
  "Basic ".toList ++ base64Encode (user ++ ':' :: passwd)

/-- `gxsBasicAuthenticationDecode` -/
def basicAuthenticationDecode (value : Text) : Option (Text × Text) :=
  let value := value.dropWhile fun c => c = ' ' || c = '\t'
  if value.length < 6 then none
  else if (value.take 5).map (fun c => c.toNat ||| 0x20) ≠ "basic".toList.map Char.toNat then none
  else if value[5]? ≠ some ' ' then none
  else
    match base64Decode (value.drop 6) with
    | none => none
    | some creds =>
      match creds.dropWhile (· ≠ ':') with
      | [] => none
      | _ :: passwd => some (creds.takeWhile (· ≠ ':'), passwd)

/-! ## The alphabet -/

theorem base64Value_char {d : Nat} (h : d < 64) : base64Value (base64Char d) = some d := by
  have hAll : ∀ d < 64, base64Value (base64Char d) = some d := by decide +kernel
  exact hAll d h

theorem base64Char_plain {d : Nat} (h : d < 64) : base64Char d ≠ '=' ∧ isBlank (base64Char d) = false := by
  have hAll : ∀ d < 64, base64Char d ≠ '=' ∧ isBlank (base64Char d) = false := by decide +kernel
  exact hAll d h

/-- The characters of a row of the alphabet. -/
theorem base64Char_row {a b c : Char} {k : Nat} (hRow : ∀ d ≤ b.toNat - a.toNat,
      Char.ofNat (a.toNat + d) = base64Char (d + k) ∧ d + k < 64) (ha : a ≤ c) (hb : c ≤ b) :
    c.toNat - a.toNat + k < 64 ∧ c = base64Char (c.toNat - a.toNat + k) := by
  have hLow : a.toNat ≤ c.toNat := ha
  have hHigh : c.toNat ≤ b.toNat := hb
  obtain ⟨hChar, hLess⟩ := hRow (c.toNat - a.toNat) (Nat.sub_le_sub_right hHigh _)
  refine ⟨hLess, ?_⟩
  rw [← hChar, Nat.add_sub_cancel' hLow, Char.ofNat_toNat]

theorem base64Char_of_value {c : Char} {d : Nat} (h : base64Value c = some d) :
    d < 64 ∧ c = base64Char d := by
  rw [base64Value] at h
  split at h
  next hRange =>
    cases h
    exact base64Char_row (k := 0) (by decide +kernel) hRange.1 hRange.2
  · split at h
    next hRange =>
      cases h
      exact base64Char_row (by decide +kernel) hRange.1 hRange.2
    · split at h
      next hRange =>
        cases h
        exact base64Char_row (by decide +kernel) hRange.1 hRange.2
      · split at h
        next hPlus =>
          cases h
          exact ⟨by decide, hPlus.trans (by decide)⟩
        · split at h
          next hSlash =>
            cases h
            exact ⟨by decide, hSlash.trans (by decide)⟩
          · cases h

theorem base64Char_inj {a b : Nat} (ha : a < 64) (hb : b < 64) (h : base64Char a = base64Char b) : a = b := by
  have hValue := base64Value_char ha
  rw [h, base64Value_char hb] at hValue
  exact (Option.some.inj hValue).symm

/-- A character depends on six bits alone. -/
theorem base64Char_mod (v : Nat) : base64Char (v % 64) = base64Char v := by
  rw [base64Char, base64Char, Nat.mod_mod]

/-! ## Groups -/

/-- The bytes of values of six bits. -/
def decodeValues : List Nat → Text
  | a :: b :: c :: d :: ds => Char.ofNat (a * 4 + b / 16) :: Char.ofNat (b % 16 * 16 + c / 4) ::
      Char.ofNat (c % 4 * 64 + d) :: decodeValues ds
  | [a, b, c] => [Char.ofNat (a * 4 + b / 16), Char.ofNat (b % 16 * 16 + c / 4)]
  | [a, b] => [Char.ofNat (a * 4 + b / 16)]
  | _ => []

/-- The bits of the last value that no byte takes. -/
def unusedBits : List Nat → Nat
  | _ :: _ :: _ :: _ :: ds => unusedBits ds
  | [_, _, c] => c % 4
  | [_, b] => b % 16
  | _ => 0

/-- Without blanks and line breaks. -/
def strip (s : Text) : Text := s.filter fun c => !isBlank c

theorem base64Loop_strip (s : Text) (st : Base64State) : base64Loop s st = base64Loop (strip s) st := by
  induction s generalizing st with
  | nil => rfl
  | cons c s ih =>
    rw [strip, List.filter_cons]
    cases hBlank : isBlank c with
    | true =>
      rw [base64Loop, if_pos hBlank, ih]
      rfl
    | false =>
      have hKeep : (!false) = true := rfl
      rw [if_pos hKeep, base64Loop, base64Loop, hBlank]
      simp only [ih]
      rfl

/-- What a character of a value does. -/
theorem base64Loop_value {d : Nat} (hd : d < 64) (t : Text) (v bits : Nat) (out : Text) :
    base64Loop (base64Char d :: t) ⟨v, bits, 0, out⟩ =
      if 8 ≤ bits + 6 then base64Loop t ⟨(v * 64 + d) % 2 ^ 32, bits + 6 - 8, 0,
        out ++ [Char.ofNat ((v * 64 + d) % 2 ^ 32 / 2 ^ (bits + 6 - 8) % 256)]⟩
      else base64Loop t ⟨(v * 64 + d) % 2 ^ 32, bits + 6, 0, out⟩ := by
  obtain ⟨hEquals, hBlank⟩ := base64Char_plain hd
  rw [base64Loop, hBlank, if_neg Bool.false_ne_true, if_neg hEquals, if_neg (by simp), base64Value_char hd]

section Group

variable {a b c d : Nat} (ha : a < 64) (hb : b < 64) (t : Text) (v : Nat) (out : Text)

include ha in
theorem base64Loop_one : ∃ v', v' % 64 = a ∧
    base64Loop (base64Char a :: t) ⟨v, 0, 0, out⟩ = base64Loop t ⟨v', 6, 0, out⟩ := by
  refine ⟨(v * 64 + a) % 2 ^ 32, by omega, ?_⟩
  rw [base64Loop_value ha, if_neg (by decide)]

include ha hb

theorem base64Loop_two : ∃ v', v' % 64 = b ∧
    base64Loop (base64Char a :: base64Char b :: t) ⟨v, 0, 0, out⟩ =
      base64Loop t ⟨v', 4, 0, out ++ [Char.ofNat (a * 4 + b / 16)]⟩ := by
  obtain ⟨w, hw, hOne⟩ := base64Loop_one ha (base64Char b :: t) v out
  refine ⟨(w * 64 + b) % 2 ^ 32, by omega, ?_⟩
  have hByte : (w * 64 + b) % 2 ^ 32 / 2 ^ (6 + 6 - 8) % 256 = a * 4 + b / 16 := by omega
  rw [hOne, base64Loop_value hb, if_pos (by decide), hByte]

theorem base64Loop_three (hc : c < 64) : ∃ v', v' % 64 = c ∧
    base64Loop (base64Char a :: base64Char b :: base64Char c :: t) ⟨v, 0, 0, out⟩ =
      base64Loop t ⟨v', 2, 0, out ++ [Char.ofNat (a * 4 + b / 16), Char.ofNat (b % 16 * 16 + c / 4)]⟩ := by
  obtain ⟨w, hw, hTwo⟩ := base64Loop_two ha hb (base64Char c :: t) v out
  refine ⟨(w * 64 + c) % 2 ^ 32, by omega, ?_⟩
  have hByte : (w * 64 + c) % 2 ^ 32 / 2 ^ (4 + 6 - 8) % 256 = b % 16 * 16 + c / 4 := by omega
  rw [hTwo, base64Loop_value hc, if_pos (by decide), hByte, List.append_assoc]
  rfl

theorem base64Loop_four (hc : c < 64) (hd : d < 64) : ∃ v',
    base64Loop (base64Char a :: base64Char b :: base64Char c :: base64Char d :: t) ⟨v, 0, 0, out⟩ =
      base64Loop t ⟨v', 0, 0, out ++ [Char.ofNat (a * 4 + b / 16), Char.ofNat (b % 16 * 16 + c / 4),
        Char.ofNat (c % 4 * 64 + d)]⟩ := by
  obtain ⟨w, hw, hThree⟩ := base64Loop_three ha hb (base64Char d :: t) v out hc
  refine ⟨(w * 64 + d) % 2 ^ 32, ?_⟩
  have hByte : (w * 64 + d) % 2 ^ 32 / 2 ^ (2 + 6 - 8) % 256 = c % 4 * 64 + d := by omega
  rw [hThree, base64Loop_value hd, if_pos (by decide), hByte, List.append_assoc]
  rfl

end Group

/-- The loop over the characters of values, from a word none of whose bits are to be passed on. -/
theorem base64Loop_values (ds : List Nat) (hds : ∀ d ∈ ds, d < 64) (t : Text) (v : Nat) (out : Text) :
    ∃ v' bits', base64Loop (ds.map base64Char ++ t) ⟨v, 0, 0, out⟩ =
      base64Loop t ⟨v', bits', 0, out ++ decodeValues ds⟩ := by
  induction ds using decodeValues.induct generalizing v out with
  | case1 a b c d ds ih =>
    have ha := hds a (by simp)
    have hb := hds b (by simp)
    have hc := hds c (by simp)
    have hd := hds d (by simp)
    obtain ⟨w, hFour⟩ := base64Loop_four ha hb (ds.map base64Char ++ t) v out hc hd
    obtain ⟨v', bits', hRest⟩ := ih (fun x hx => hds x (by simp [hx])) w
      (out ++ [Char.ofNat (a * 4 + b / 16), Char.ofNat (b % 16 * 16 + c / 4), Char.ofNat (c % 4 * 64 + d)])
    refine ⟨v', bits', ?_⟩
    rw [List.append_assoc] at hRest
    exact hFour.trans hRest
  | case2 a b c =>
    obtain ⟨w, -, hThree⟩ := base64Loop_three (hds a (by simp)) (hds b (by simp)) t v out (hds c (by simp))
    exact ⟨w, 2, hThree⟩
  | case3 a b =>
    obtain ⟨w, -, hTwo⟩ := base64Loop_two (hds a (by simp)) (hds b (by simp)) t v out
    exact ⟨w, 4, hTwo⟩
  | case4 ds hFour hThree hTwo =>
    cases ds with
    | nil => exact ⟨v, 0, by simp [decodeValues]⟩
    | cons a ds =>
      cases ds with
      | nil =>
        obtain ⟨w, -, hOne⟩ := base64Loop_one (hds a (by simp)) t v out
        exact ⟨w, 6, by simpa [decodeValues] using hOne⟩
      | cons b ds =>
        cases ds with
        | nil => exact absurd rfl (hTwo a b)
        | cons c ds =>
          cases ds with
          | nil => exact absurd rfl (hThree a b c)
          | cons d ds => exact absurd rfl (hFour a b c d ds)

theorem base64Loop_pad (n : Nat) (s : Base64State) :
    base64Loop (List.replicate n '=') s = if s.pad + n ≤ 2 then some s.out else none := by
  induction n generalizing s with
  | zero => rfl
  | succ n ih =>
    rw [List.replicate_succ, base64Loop, if_neg (by decide), if_pos rfl, ih]
    simp only [Nat.add_assoc, Nat.add_comm 1]

/-- What the loop accepts. -/
theorem base64Loop_accepts {t : Text} (hPlain : ∀ c ∈ t, isBlank c = false) {s : Base64State} {x : Text}
    (h : base64Loop t s = some x) : ∃ (ds : List Nat) (pad : Nat), (∀ d ∈ ds, d < 64) ∧
      t = ds.map base64Char ++ List.replicate pad '=' ∧ s.pad + pad ≤ 2 ∧ (s.pad ≠ 0 → ds = []) := by
  induction t generalizing s with
  | nil =>
    rw [base64Loop] at h
    split at h
    · exact ⟨[], 0, nofun, rfl, ‹_›, fun _ => rfl⟩
    · cases h
  | cons c t ih =>
    have hRest (c') (hc' : c' ∈ t) := hPlain c' (List.mem_cons_of_mem c hc')
    rw [base64Loop, hPlain c List.mem_cons_self, if_neg Bool.false_ne_true] at h
    split at h
    next hEquals =>
      obtain ⟨ds, pad, hds, rfl, hPad, hNone⟩ := ih hRest h
      obtain rfl := hNone (Nat.succ_ne_zero _)
      refine ⟨[], pad + 1, nofun, ?_, ?_, fun _ => rfl⟩
      · rw [hEquals]
        rfl
      · dsimp only at hPad
        omega
    next =>
      split at h
      · cases h
      next hZero =>
        rw [not_not] at hZero
        cases hValue : base64Value c with
        | none =>
          rw [hValue] at h
          cases h
        | some d =>
          obtain ⟨hd, rfl⟩ := base64Char_of_value hValue
          rw [hValue] at h
          have hMore : ∃ s' : Base64State, s'.pad = s.pad ∧ base64Loop t s' = some x := by
            dsimp only at h
            split at h
            · refine ⟨_, ?_, h⟩
              rfl
            · refine ⟨_, ?_, h⟩
              rfl
          obtain ⟨s', hPad', h'⟩ := hMore
          obtain ⟨ds, pad, hds, rfl, hPad, -⟩ := ih hRest h'
          refine ⟨d :: ds, pad, ?_, rfl, by omega, fun hNe => absurd hZero hNe⟩
          rintro d' (_ | ⟨_, hd'⟩)
          · exact hd
          · exact hds d' hd'

theorem base64Decode_iff {s x : Text} : base64Decode s = some x ↔
    ∃ (ds : List Nat) (pad : Nat), (∀ d ∈ ds, d < 64) ∧ strip s = ds.map base64Char ++ List.replicate pad '=' ∧
      pad ≤ 2 ∧ x = decodeValues ds := by
  have hRun {ds : List Nat} {pad : Nat} (hds : ∀ d ∈ ds, d < 64)
      (hStrip : strip s = ds.map base64Char ++ List.replicate pad '=') (hPad : pad ≤ 2) :
      base64Decode s = some (decodeValues ds) := by
    obtain ⟨v, bits, hLoop⟩ := base64Loop_values ds hds (List.replicate pad '=') 0 []
    rw [base64Decode, base64Loop_strip, hStrip, hLoop, base64Loop_pad, if_pos (by simpa using hPad)]
    rfl
  constructor
  · intro h
    have hPlain (c) (hc : c ∈ strip s) : isBlank c = false := by simpa using (List.mem_filter.mp hc).2
    have hLoop := h
    rw [base64Decode, base64Loop_strip] at hLoop
    obtain ⟨ds, pad, hds, hStrip, hPad, -⟩ := base64Loop_accepts hPlain hLoop
    rw [Nat.zero_add] at hPad
    exact ⟨ds, pad, hds, hStrip, hPad, Option.some.inj (h.symm.trans (hRun hds hStrip hPad))⟩
  · rintro ⟨ds, pad, hds, hStrip, hPad, rfl⟩
    exact hRun hds hStrip hPad

/-! ## The encoder -/

/-- Each character is a byte. -/
def IsBytes (s : Text) : Prop := ∀ c ∈ s, c.toNat < 256

/-- The values of the characters for bytes. -/
def encodeValues : Text → List Nat
  | a :: b :: c :: s => a.toNat / 4 :: (a.toNat % 4 * 16 + b.toNat / 16) ::
      (b.toNat % 16 * 4 + c.toNat / 64) :: c.toNat % 64 :: encodeValues s
  | [a, b] => [a.toNat / 4, a.toNat % 4 * 16 + b.toNat / 16, b.toNat % 16 * 4]
  | [a] => [a.toNat / 4, a.toNat % 4 * 16]
  | [] => []

/-- The number of characters that fill up the last group. -/
def padding : Text → Nat
  | _ :: _ :: _ :: s => padding s
  | [_, _] => 1
  | [_] => 2
  | [] => 0

theorem base64Char_eq {v a : Nat} (h : v % 64 = a) : base64Char v = base64Char a := by
  rw [← h, base64Char_mod]

theorem base64Encode_eq {x : Text} (hx : IsBytes x) :
    base64Encode x = (encodeValues x).map base64Char ++ List.replicate (padding x) '=' := by
  induction x using encodeValues.induct with
  | case1 a b c s ih =>
    have ha := hx a (by simp)
    have hb := hx b (by simp)
    have hc := hx c (by simp)
    rw [base64Encode, encodeValues, padding, ih fun y hy => hx y (by simp [hy])]
    simp only [List.map_cons, List.cons_append]
    iterate 4 refine congrArg₂ List.cons (base64Char_eq (by omega)) ?_
    rfl
  | case2 a b =>
    have ha := hx a (by simp)
    have hb := hx b (by simp)
    rw [base64Encode, encodeValues, padding]
    simp only [List.map_cons, List.cons_append]
    iterate 3 refine congrArg₂ List.cons (base64Char_eq (by omega)) ?_
    rfl
  | case3 a =>
    have ha := hx a (by simp)
    rw [base64Encode, encodeValues, padding]
    simp only [List.map_cons, List.cons_append]
    iterate 2 refine congrArg₂ List.cons (base64Char_eq (by omega)) ?_
    rfl
  | case4 => rfl

theorem encodeValues_lt {x : Text} (hx : IsBytes x) : ∀ d ∈ encodeValues x, d < 64 := by
  induction x using encodeValues.induct with
  | case1 a b c s ih =>
    have ha := hx a (by simp)
    have hb := hx b (by simp)
    have hc := hx c (by simp)
    have hs := ih fun y hy => hx y (by simp [hy])
    simp only [encodeValues, List.forall_mem_cons]
    exact ⟨by omega, by omega, by omega, by omega, hs⟩
  | case2 a b =>
    have ha := hx a (by simp)
    have hb := hx b (by simp)
    simp only [encodeValues, List.forall_mem_cons]
    exact ⟨by omega, by omega, by omega, nofun⟩
  | case3 a =>
    have ha := hx a (by simp)
    simp only [encodeValues, List.forall_mem_cons]
    exact ⟨by omega, by omega, nofun⟩
  | case4 => nofun

theorem padding_le (x : Text) : padding x ≤ 2 := by
  induction x using padding.induct with
  | case1 a b c s ih => exact ih
  | _ => simp [padding]

theorem ofNat_byte {c : Char} {n : Nat} (h : n = c.toNat) : Char.ofNat n = c := by
  rw [h, Char.ofNat_toNat]

theorem decodeValues_encodeValues {x : Text} (hx : IsBytes x) : decodeValues (encodeValues x) = x := by
  induction x using encodeValues.induct with
  | case1 a b c s ih =>
    have ha := hx a (by simp)
    have hb := hx b (by simp)
    have hc := hx c (by simp)
    rw [encodeValues, decodeValues, ih fun y hy => hx y (by simp [hy]), ofNat_byte (c := a) (by omega),
      ofNat_byte (c := b) (by omega), ofNat_byte (c := c) (by omega)]
  | case2 a b =>
    have ha := hx a (by simp)
    have hb := hx b (by simp)
    rw [encodeValues, decodeValues, ofNat_byte (c := a) (by omega), ofNat_byte (c := b) (by omega)]
  | case3 a =>
    have ha := hx a (by simp)
    rw [encodeValues, decodeValues, ofNat_byte (c := a) (by omega)]
  | case4 => rfl

theorem strip_encoded {ds : List Nat} (hds : ∀ d ∈ ds, d < 64) (pad : Nat) :
    strip (ds.map base64Char ++ List.replicate pad '=') = ds.map base64Char ++ List.replicate pad '=' := by
  apply List.filter_eq_self.mpr
  intro c hc
  rcases List.mem_append.mp hc with hc | hc
  · obtain ⟨d, hd, rfl⟩ := List.mem_map.mp hc
    rw [(base64Char_plain (hds d hd)).2]
    rfl
  · rw [List.eq_of_mem_replicate hc]
    rfl

theorem base64Decode_encode {x : Text} (hx : IsBytes x) : base64Decode (base64Encode x) = some x := by
  rw [base64Decode_iff]
  refine ⟨encodeValues x, padding x, encodeValues_lt hx, ?_, padding_le x, (decodeValues_encodeValues hx).symm⟩
  rw [base64Encode_eq hx, strip_encoded (encodeValues_lt hx)]

/-! ## What is accepted -/

/-- The characters fill up groups of four, and no bits are left over. -/
def Canonical (s : Text) : Prop :=
  (strip s).length % 4 = 0 ∧ unusedBits ((strip s).filterMap base64Value) = 0

theorem filterMap_encoded {ds : List Nat} (hds : ∀ d ∈ ds, d < 64) (pad : Nat) :
    (ds.map base64Char ++ List.replicate pad '=').filterMap base64Value = ds := by
  have hNone : (List.replicate pad '=').filterMap base64Value = [] := by
    apply List.filterMap_eq_nil_iff.mpr
    intro c hc
    rw [List.eq_of_mem_replicate hc]
    rfl
  rw [List.filterMap_append, hNone, List.append_nil, List.filterMap_map]
  clear hNone
  induction ds with
  | nil => rfl
  | cons d ds ih =>
    have hd : (base64Value ∘ base64Char) d = some d := base64Value_char (hds d List.mem_cons_self)
    rw [List.filterMap_cons_some hd, ih fun d' hd' => hds d' (List.mem_cons_of_mem d hd')]

/-- The encoder puts zeros for the bits that no byte has. -/
theorem base64Encode_two {a b : Nat} (ha : a < 64) (hb : b < 64) :
    base64Encode [Char.ofNat (a * 4 + b / 16)] = [base64Char a, base64Char (b / 16 * 16), '=', '='] := by
  rw [base64Encode, toNat_ofNat_byte (by omega)]
  iterate 2 refine congrArg₂ List.cons (base64Char_eq (by omega)) ?_
  rfl

theorem base64Encode_three {a b c : Nat} (ha : a < 64) (hb : b < 64) (hc : c < 64) :
    base64Encode [Char.ofNat (a * 4 + b / 16), Char.ofNat (b % 16 * 16 + c / 4)] =
      [base64Char a, base64Char b, base64Char (c / 4 * 4), '='] := by
  rw [base64Encode, toNat_ofNat_byte (by omega), toNat_ofNat_byte (by omega)]
  iterate 3 refine congrArg₂ List.cons (base64Char_eq (by omega)) ?_
  rfl

theorem base64Encode_four {a b c d : Nat} (ha : a < 64) (hb : b < 64) (hc : c < 64) (hd : d < 64) (s : Text) :
    base64Encode (Char.ofNat (a * 4 + b / 16) :: Char.ofNat (b % 16 * 16 + c / 4) ::
      Char.ofNat (c % 4 * 64 + d) :: s) =
        base64Char a :: base64Char b :: base64Char c :: base64Char d :: base64Encode s := by
  rw [base64Encode, toNat_ofNat_byte (by omega), toNat_ofNat_byte (by omega), toNat_ofNat_byte (by omega)]
  iterate 4 refine congrArg₂ List.cons (base64Char_eq (by omega)) ?_
  rfl

theorem base64Encode_decodeValues (ds : List Nat) (hds : ∀ d ∈ ds, d < 64) {pad : Nat} (hPad : pad ≤ 2) :
    base64Encode (decodeValues ds) = ds.map base64Char ++ List.replicate pad '=' ↔
      (ds.length + pad) % 4 = 0 ∧ unusedBits ds = 0 := by
  induction ds using decodeValues.induct with
  | case1 a b c d ds ih =>
    have hRest := ih fun x hx => hds x (by simp [hx])
    have hLength : ((a :: b :: c :: d :: ds).length + pad) % 4 = (ds.length + pad) % 4 := by
      simp only [List.length_cons]
      omega
    rw [hLength, unusedBits, ← hRest, decodeValues, base64Encode_four (hds a (by simp)) (hds b (by simp))
      (hds c (by simp)) (hds d (by simp))]
    simp
  | case2 a b c =>
    have hc := hds c (by simp)
    rw [decodeValues, base64Encode_three (hds a (by simp)) (hds b (by simp)) hc, unusedBits]
    constructor
    · intro h
      have hLength := congrArg List.length h
      simp only [List.length_append, List.length_map, List.length_replicate, List.length_cons,
        List.length_nil] at hLength ⊢
      obtain rfl : pad = 1 := by omega
      simp only [List.map_cons, List.map_nil, List.cons_append, List.cons.injEq, true_and] at h
      have hSame := base64Char_inj (by omega) hc h.1
      exact ⟨by omega, by omega⟩
    · rintro ⟨hLength, hUnused⟩
      simp only [List.length_cons, List.length_nil] at hLength
      obtain rfl : pad = 1 := by omega
      have hSame : c / 4 * 4 = c := by omega
      rw [hSame]
      rfl
  | case3 a b =>
    have hb := hds b (by simp)
    rw [decodeValues, base64Encode_two (hds a (by simp)) hb, unusedBits]
    constructor
    · intro h
      have hLength := congrArg List.length h
      simp only [List.length_append, List.length_map, List.length_replicate, List.length_cons,
        List.length_nil] at hLength ⊢
      obtain rfl : pad = 2 := by omega
      simp only [List.map_cons, List.map_nil, List.cons_append, List.cons.injEq, true_and] at h
      have hSame := base64Char_inj (by omega) hb h.1
      exact ⟨by omega, by omega⟩
    · rintro ⟨hLength, hUnused⟩
      simp only [List.length_cons, List.length_nil] at hLength
      obtain rfl : pad = 2 := by omega
      have hSame : b / 16 * 16 = b := by omega
      rw [hSame]
      rfl
  | case4 ds hFour hThree hTwo =>
    have hShort : ds = [] ∨ ∃ a, ds = [a] := by
      match ds with
      | [] => exact .inl rfl
      | [a] => exact .inr ⟨a, rfl⟩
      | [a, b] => exact absurd rfl (hTwo a b)
      | [a, b, c] => exact absurd rfl (hThree a b c)
      | a :: b :: c :: d :: ds => exact absurd rfl (hFour a b c d ds)
    rcases hShort with rfl | ⟨a, rfl⟩
    · constructor
      · intro h
        have hLength := congrArg List.length h
        simp only [decodeValues, base64Encode, List.map_nil, List.nil_append, List.length_nil,
          List.length_replicate] at hLength
        exact ⟨by rw [← hLength]; rfl, rfl⟩
      · rintro ⟨hLength, -⟩
        rw [List.length_nil] at hLength
        obtain rfl : pad = 0 := by omega
        rfl
    · constructor
      · intro h
        simp [decodeValues, base64Encode] at h
      · rintro ⟨hLength, -⟩
        rw [List.length_singleton] at hLength
        omega

theorem base64Encode_decode_iff {s x : Text} (h : base64Decode s = some x) :
    base64Encode x = strip s ↔ Canonical s := by
  obtain ⟨ds, pad, hds, hStrip, hPad, rfl⟩ := base64Decode_iff.mp h
  rw [Canonical, hStrip, filterMap_encoded hds, List.length_append, List.length_map, List.length_replicate]
  exact base64Encode_decodeValues ds hds hPad

/-! ## Basic authentication -/

theorem basicAuthenticationDecode_encode {user passwd : Text} (hUser : IsBytes user)
    (hPasswd : IsBytes passwd) (hColon : ':' ∉ user) :
    basicAuthenticationDecode (basicAuthenticationEncode user passwd) = some (user, passwd) := by
  have hBytes : IsBytes (user ++ ':' :: passwd) := by
    intro c hc
    rcases List.mem_append.mp hc with hc | hc
    · exact hUser c hc
    · rcases List.mem_cons.mp hc with rfl | hc
      · decide
      · exact hPasswd c hc
  have hKeep : ∀ c ∈ user, decide (c ≠ ':') = true := by
    intro c hc
    apply decide_eq_true
    rintro rfl
    exact hColon hc
  have hTake : (user ++ ':' :: passwd).takeWhile (fun c => decide (c ≠ ':')) = user := by
    rw [List.takeWhile_append_of_pos hKeep, List.takeWhile_cons_of_neg (by simp), List.append_nil]
  have hDrop : (user ++ ':' :: passwd).dropWhile (fun c => decide (c ≠ ':')) = ':' :: passwd := by
    rw [List.dropWhile_append_of_pos hKeep, List.dropWhile_cons_of_neg (by simp)]
  have hValue : basicAuthenticationEncode user passwd =
      'B' :: 'a' :: 's' :: 'i' :: 'c' :: ' ' :: base64Encode (user ++ ':' :: passwd) := rfl
  rw [basicAuthenticationDecode, hValue]
  simp only [List.dropWhile_cons_of_neg (p := fun c : Char => c = ' ' || c = '\t') (a := 'B') (by decide)]
  rw [if_neg (by simp), if_neg (by simp), if_neg (by simp)]
  simp only [List.drop_succ_cons, List.drop_zero, base64Decode_encode hBytes, hDrop, hTake]

/-- What is decoded after it is encoded is as it was; what is encoded after it is decoded is so exactly if
the characters fill up groups of four and leave no bits over. -/
theorem base64_inverse_iff (x s user passwd : Text) :
    (IsBytes x → base64Decode (base64Encode x) = some x) ∧
      (∀ y, base64Decode s = some y → (base64Encode y = strip s ↔ Canonical s)) ∧
      (IsBytes user → IsBytes passwd → ':' ∉ user →
        basicAuthenticationDecode (basicAuthenticationEncode user passwd) = some (user, passwd)) :=
  ⟨base64Decode_encode, fun _ => base64Encode_decode_iff, basicAuthenticationDecode_encode⟩

/-- Two characters without padding are accepted, as are bits that no byte has and padding alone. -/
theorem base64Decode_lenient :
    base64Decode "QQ".toList = some ['A'] ∧ base64Encode ['A'] = "QQ==".toList ∧
      base64Encode ['A'] ≠ strip "QQ".toList ∧ base64Decode "QR==".toList = some ['A'] ∧
      base64Decode "Q".toList = some [] ∧ base64Decode "=".toList = some [] := by
  decide +kernel

end DataReel.Text
