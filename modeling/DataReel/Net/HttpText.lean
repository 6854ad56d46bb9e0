import DataReel.Net.Http

/-! # Numbers, fields and trimmed text in a message -/

namespace DataReel

namespace Text

section Numbers

theorem isDigit_iff (c : Char) : c.isDigit = true ↔ '0' ≤ c ∧ c ≤ '9' := by
  simp [Char.isDigit, Char.le_def, UInt32.le_iff_toNat_le]

theorem digitValue_of_isDigit {c : Char} (h : c.isDigit = true) :
    digitValue c = c.toNat - '0'.toNat ∧ digitValue c < 10 := by
  have hBounds := (isDigit_iff c).mp h
  have hNine : c.toNat ≤ '9'.toNat := hBounds.2
  have hValue : digitValue c = c.toNat - '0'.toNat := by
    unfold digitValue
    rw [if_pos hBounds]
  refine ⟨hValue, ?_⟩
  rw [hValue]
  have : '9'.toNat = 57 := rfl
  have : '0'.toNat = 48 := rfl
  omega

theorem isDigit_of_mem {n : Nat} {c : Char} (h : c ∈ ofInt n) : c.isDigit = true := by
  rw [ofInt_natCast] at h
  exact Nat.isDigit_of_mem_toDigits (by decide) (by decide) h

theorem not_isSpace_of_isDigit {c : Char} (h : c.isDigit = true) : isSpace c = false := by
  have hZero : '0'.toNat ≤ c.toNat := ((isDigit_iff c).mp h).1
  have hFar (d : Char) (hd : d.toNat < '0'.toNat) : c ≠ d := by
    rintro rfl
    omega
  simp [isSpace, hFar ' ' (by decide), hFar '\t' (by decide), hFar '\r' (by decide),
    hFar '\n' (by decide), hFar '\x0c' (by decide), hFar '\x0b' (by decide)]

theorem ofInt_cons (n : Nat) : ∃ c s, ofInt n = c :: s ∧ c.isDigit = true := by
  cases h : ofInt n with
  | nil =>
    rw [ofInt_natCast] at h
    exact absurd h Nat.toDigits_ne_nil
  | cons c s => exact ⟨c, s, rfl, isDigit_of_mem (n := n) (by rw [h]; simp)⟩

theorem trimLeft_of_digit {c : Char} {s : Text} (h : c.isDigit = true) :
    trimLeft (c :: s) = c :: s := by
  unfold trimLeft
  rw [List.dropWhile_cons_of_neg (by simp [not_isSpace_of_isDigit h])]

theorem ne_of_isDigit {c d : Char} (h : c.isDigit = true) (hd : d.isDigit = false) : c ≠ d := by
  rintro rfl
  rw [h] at hd
  exact nomatch hd

theorem digits_append {ds : Text} (hds : ∀ c ∈ ds, c.isDigit = true) (n : Nat) (s : Text) :
    digits n (ds ++ s) = digits (Nat.ofDigitChars 10 ds n) s := by
  induction ds generalizing n with
  | nil => rw [List.nil_append, Nat.ofDigitChars_nil]
  | cons c ds ih =>
    rw [List.cons_append, digits, if_pos (hds c List.mem_cons_self), Nat.ofDigitChars_cons]
    exact ih (fun d hd => hds d (List.mem_cons_of_mem c hd)) _

theorem atoi_ofInt (n : Nat) (s : Text) : atoi (ofInt n ++ ' ' :: s) = n := by
  obtain ⟨c, ds, hEq, hDigit⟩ := ofInt_cons n
  have hDigits : digits 0 (ofInt n ++ ' ' :: s) = n := by
    rw [digits_append fun d hd => isDigit_of_mem hd, ofInt_natCast, Nat.ofDigitChars_ten_toDigits]
    rfl
  rw [hEq, List.cons_append] at hDigits ⊢
  unfold atoi
  rw [trimLeft_of_digit hDigit]
  split
  · next hMinus =>
    injection hMinus with hc
    exact absurd hc (ne_of_isDigit hDigit rfl)
  · next hPlus =>
    injection hPlus with hc
    exact absurd hc (ne_of_isDigit hDigit rfl)
  · rw [hDigits]

theorem wholeNumber_ofInt {n : Nat} (h : n < 2 ^ 64) : wholeNumber 10 (ofInt n) = some n := by
  obtain ⟨c, ds, hEq, hDigit⟩ := ofInt_cons n
  have hAll (d : Char) (hd : d ∈ c :: ds) : d.isDigit = true := isDigit_of_mem (n := n) (hEq ▸ hd)
  have hNul : (c :: ds).takeWhile (· ≠ '\x00') = c :: ds :=
    List.takeWhile_eq_self_iff.mpr fun d hd => by
      simpa using ne_of_isDigit (hAll d hd) rfl
  have hSign : sign (c :: ds) = (false, c :: ds) := by
    unfold sign
    split
    · next hMinus =>
      injection hMinus with hc
      exact absurd hc (ne_of_isDigit hDigit rfl)
    · next hPlus =>
      injection hPlus with hc
      exact absurd hc (ne_of_isDigit hDigit rfl)
    · rfl
  have hPrefix : dropHexPrefix 10 (c :: ds) = c :: ds := by
    unfold dropHexPrefix
    split
    · next hHex => rw [if_neg (by simp), hHex]
    · rfl
  have hTake : (c :: ds).takeWhile (fun d => digitValue d < 10) = c :: ds :=
    List.takeWhile_eq_self_iff.mpr fun d hd => by
      simpa using (digitValue_of_isDigit (hAll d hd)).2
  have hDrop : (c :: ds).dropWhile (fun d => digitValue d < 10) = [] :=
    List.dropWhile_eq_nil_iff.mpr fun d hd => by
      simpa using (digitValue_of_isDigit (hAll d hd)).2
  have hValue : digitsValue 10 (c :: ds) = n := by
    unfold digitsValue
    rw [hTake]
    calc
      _ = Nat.ofDigitChars 10 (c :: ds) 0 := by
        rw [Nat.ofDigitChars_eq_foldl]
        refine List.foldl_ext _ _ _ fun k d hd => ?_
        rw [(digitValue_of_isDigit (hAll d hd)).1]
      _ = n := by rw [← hEq, ofInt_natCast, Nat.ofDigitChars_ten_toDigits]
  unfold wholeNumber strtoull
  rw [hEq, hNul, trimLeft_of_digit hDigit, hSign]
  dsimp only
  rw [hPrefix, hTake, hDrop, hValue, if_neg (Nat.not_le.mpr h)]
  rfl

end Numbers

section Fields

variable {s : Text}

theorem mem_splitOn {f : Text} {sep : Char} (h : f ∈ s.splitOn sep) :
    sep ∉ f ∧ ∀ c ∈ f, c ∈ s := by
  induction s generalizing f with
  | nil =>
    obtain rfl : f = [] := by simpa using h
    exact ⟨List.not_mem_nil, nofun⟩
  | cons d s ih =>
    rw [List.splitOn_cons_eq_if_modifyHead] at h
    split at h
    · rcases List.mem_cons.mp h with rfl | h
      · exact ⟨List.not_mem_nil, nofun⟩
      · exact ⟨(ih h).1, fun c hc => List.mem_cons_of_mem d ((ih h).2 c hc)⟩
    · next hd =>
      cases hSplit : s.splitOn sep with
      | nil => exact absurd hSplit (List.splitOn_ne_nil sep s)
      | cons g gs =>
        rw [hSplit] at h ih
        rcases List.mem_cons.mp h with rfl | h
        · obtain ⟨hSep, hChars⟩ := ih List.mem_cons_self
          simp only [beq_iff_eq] at hd
          refine ⟨?_, fun c hc => ?_⟩
          · simp only [List.mem_cons, not_or]
            exact ⟨fun h => hd h.symm, hSep⟩
          · rcases List.mem_cons.mp hc with rfl | hc
            · exact List.mem_cons_self
            · exact List.mem_cons_of_mem d (hChars c hc)
        · obtain ⟨hSep, hChars⟩ := ih (List.mem_cons_of_mem g h)
          exact ⟨hSep, fun c hc => List.mem_cons_of_mem d (hChars c hc)⟩

theorem split_three {a b c : Text} (ha : a ≠ [] ∧ ' ' ∉ a) (hb : b ≠ [] ∧ ' ' ∉ b)
    (hc : c ≠ [] ∧ ' ' ∉ c) :
    split (a ++ " ".toList ++ b ++ " ".toList ++ c) ' ' true = [a, b, c] := by
  have hLine : a ++ " ".toList ++ b ++ " ".toList ++ c = a ++ ' ' :: (b ++ ' ' :: c) := by simp
  have hEmpty {f : Text} (hf : f ≠ []) : (!f.isEmpty) = true := by simpa using hf
  unfold split
  rw [hLine, List.splitOn_append_cons_self_of_not_mem ha.2,
    List.splitOn_append_cons_self_of_not_mem hb.2, List.splitOn_eq_singleton hc.2]
  simp [ha.1, hb.1, hc.1]

end Fields

section Trim

variable {s : Text} {c : Char}

theorem trimLeft_cons_of_not_isSpace (h : isSpace c = false) : trimLeft (c :: s) = c :: s := by
  unfold trimLeft
  rw [List.dropWhile_cons_of_neg (by simp [h])]

theorem trimLeft_cons_of_isSpace (h : isSpace c = true) : trimLeft (c :: s) = trimLeft s := by
  unfold trimLeft
  rw [List.dropWhile_cons_of_pos h]

theorem trim_blank (s : Text) : trim (' ' :: s) = trim s := by
  unfold trim
  rw [trimLeft_cons_of_isSpace rfl]

theorem isInfix_trim (s : Text) : trim s <:+: s :=
  (List.rdropWhile_prefix _ _).isInfix.trans (List.dropWhile_suffix _).isInfix

theorem not_isSpace_of_trim (h : trim (c :: s) = c :: s) : isSpace c = false := by
  by_contra hSpace
  have hShort := (isInfix_trim s).length_le
  have hLength := congrArg List.length h
  rw [trim, trimLeft_cons_of_isSpace (by simpa using hSpace), ← trim] at hLength
  rw [List.length_cons] at hLength
  omega

theorem trim_trim (s : Text) : trim (trim s) = trim s := by
  unfold trim trimRight
  cases hLeft : trimLeft s with
  | nil => rfl
  | cons c t =>
    have hSpace : isSpace c = false := by
      have hHead := List.head?_dropWhile_not isSpace s
      unfold trimLeft at hLeft
      rw [hLeft] at hHead
      simpa using hHead
    obtain ⟨u, hu⟩ : ∃ u, (c :: t).rdropWhile isSpace = c :: u := by
      obtain ⟨v, hv⟩ := List.rdropWhile_prefix isSpace (c :: t)
      cases hDrop : (c :: t).rdropWhile isSpace with
      | nil =>
        have hAll := List.rdropWhile_eq_nil_iff.mp hDrop c List.mem_cons_self
        rw [hSpace] at hAll
        exact nomatch hAll
      | cons d u =>
        rw [hDrop, List.cons_append] at hv
        exact ⟨u, by rw [(List.cons.inj hv).1]⟩
    rw [hu, trimLeft_cons_of_not_isSpace hSpace, ← hu, List.rdropWhile_idempotent]

end Trim

end Text

end DataReel
