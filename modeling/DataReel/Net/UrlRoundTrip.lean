import DataReel.Net.Url

/-! # Reading back what `ToString` writes -/

namespace DataReel

namespace Text

theorem toNat_toLower {c : Char} (h : toLower c ≠ c) :
    65 ≤ c.toNat ∧ c.toNat ≤ 90 ∧ (toLower c).toNat = c.toNat + 32 := by
  unfold toLower at h ⊢
  split at h
  · next hUpper =>
    have hLow : 65 ≤ c.toNat := hUpper.1
    have hHigh : c.toNat ≤ 90 := hUpper.2
    have hNat : c.toNat - 'A'.toNat + 'a'.toNat = c.toNat + 32 := by
      change c.toNat - 65 + 97 = _
      omega
    rw [if_pos hUpper, hNat, Text.toNat_ofNat_byte (by omega)]
    exact ⟨hLow, hHigh, rfl⟩
  · exact absurd rfl h

theorem toLower_eq_iff {c d : Char} (hd : d.toNat < 97 ∧ (d.toNat < 65 ∨ 90 < d.toNat)) :
    toLower c = d ↔ c = d := by
  by_cases hKeep : toLower c = c
  · rw [hKeep]
  · obtain ⟨hLow, hHigh, hNat⟩ := toNat_toLower hKeep
    constructor
    · rintro rfl
      omega
    · rintro rfl
      omega

theorem toLower_toLower (c : Char) : toLower (toLower c) = toLower c := by
  by_contra hAgain
  have hSecond := toNat_toLower hAgain
  by_cases hKeep : toLower c = c
  · rw [hKeep] at hAgain
    exact hAgain hKeep
  · have hFirst := toNat_toLower hKeep
    omega

theorem lower_lower (s : Text) : lower (lower s) = lower s := by
  simp [lower, toLower_toLower]

theorem mem_lower {s : Text} {d : Char} (hd : d.toNat < 97 ∧ (d.toNat < 65 ∨ 90 < d.toNat)) :
    d ∈ lower s ↔ d ∈ s := by
  simp [lower, toLower_eq_iff hd]

end Text

/-- The text of an optional part, after its separator. -/
def suffixed (c : Char) : Option Text → Text
  | none => []
  | some s => c :: s

namespace URL

variable {url start rest scheme a path t : Text} {c : Char} {u v : URLInfo} {query fragment : Option Text}

theorem beforeAfter_suffixed (h : c ∉ t) (o : Option Text) :
    beforeAfter c (t ++ suffixed c o) = (t, o.getD []) := by
  cases o with
  | none =>
    rw [suffixed, List.append_nil]
    exact beforeAfter_none h
  | some s => exact beforeAfter_append h

/-- The characters of an authority, and those of a path. -/
def IsAuthority (s : Text) : Prop := '/' ∉ s ∧ '?' ∉ s ∧ '#' ∉ s

def IsPath (s : Text) : Prop := (∀ c t, s = c :: t → c = '/') ∧ '?' ∉ s ∧ '#' ∉ s

theorem takeWhile_authority (ha : '/' ∉ a) (hPath : ∀ c t, path = c :: t → c = '/') :
    (a ++ path).takeWhile (· ≠ '/') = a ∧ (a ++ path).dropWhile (· ≠ '/') = path := by
  have hAll : ∀ c ∈ a, decide (c ≠ '/') = true := by
    intro c hc
    exact decide_eq_true fun h => ha (h ▸ hc)
  rw [List.takeWhile_append_of_pos hAll, List.dropWhile_append_of_pos hAll]
  cases path with
  | nil => exact ⟨List.append_nil a, rfl⟩
  | cons c t =>
    cases hPath c t rfl
    exact ⟨List.append_nil a, rfl⟩

theorem parts_eq (ha : IsAuthority a) (hPath : IsPath path) (hQuery : ∀ q ∈ query, '#' ∉ q) :
    parts (a ++ path ++ suffixed '?' query ++ suffixed '#' fragment) =
      ⟨a, path, query.getD [], fragment.getD []⟩ := by
  have hHash : '#' ∉ a ++ path ++ suffixed '?' query := by
    simp only [List.mem_append, not_or]
    refine ⟨⟨ha.2.2, hPath.2.2⟩, ?_⟩
    cases query with
    | none => exact List.not_mem_nil
    | some q => simpa [suffixed] using hQuery q rfl
  have hMark : '?' ∉ a ++ path := by
    simp only [List.mem_append, not_or]
    exact ⟨ha.2.1, hPath.2.1⟩
  unfold parts
  rw [beforeAfter_suffixed hHash]
  dsimp only
  rw [beforeAfter_suffixed hMark]
  dsimp only
  rw [(takeWhile_authority ha.1 hPath.1).1, (takeWhile_authority ha.1 hPath.1).2]

/-- What `parts` gives is of the characters its parts may have. -/
theorem parts_sound (rest : Text) :
    IsAuthority (parts rest).authority ∧ IsPath (parts rest).path ∧ '#' ∉ (parts rest).query := by
  have hHash := not_mem_beforeAfter '#' rest
  have hMark := not_mem_beforeAfter '?' (beforeAfter '#' rest).1
  have hSub := beforeAfter_subset '?' (beforeAfter '#' rest).1
  unfold parts
  dsimp only
  refine ⟨⟨?_, ?_, ?_⟩, ⟨?_, ?_, ?_⟩, ?_⟩
  · intro hMem
    simpa using List.mem_takeWhile_imp hMem
  · intro hMem
    exact hMark ((List.takeWhile_prefix _).subset hMem)
  · intro hMem
    exact hHash (hSub.1 ((List.takeWhile_prefix _).subset hMem))
  · intro c t hEq
    have hHead := List.head?_dropWhile_not (· ≠ '/') (beforeAfter '?' (beforeAfter '#' rest).1).1
    rw [hEq] at hHead
    simpa using hHead
  · intro hMem
    exact hMark ((List.dropWhile_suffix _).subset hMem)
  · intro hMem
    exact hHash (hSub.1 ((List.dropWhile_suffix _).subset hMem))
  · intro hMem
    exact hHash (hSub.2 hMem)

/-! ## What is accepted -/

theorem toLower_of_isSchemeChar (h : isSchemeChar c = true) : Text.toLower c = c := by
  by_contra hChange
  have hUpper := Text.toNat_toLower hChange
  unfold isSchemeChar at h
  simp only [Bool.or_eq_true, Bool.and_eq_true, decide_eq_true_eq, Char.le_def, UInt32.le_iff_toNat_le,
    Char.toNat_val] at h
  have h0 : '0'.toNat = 48 := rfl
  have h9 : '9'.toNat = 57 := rfl
  have ha : 'a'.toNat = 97 := rfl
  rcases h with (((h | h) | rfl) | rfl) | rfl
  · omega
  · omega
  · revert hUpper
    decide
  · revert hUpper
    decide
  · revert hUpper
    decide

/-- A scheme as `Parse` leaves it. -/
def IsScheme (s : Text) : Prop := s ≠ [] ∧ ∀ c ∈ s, isSchemeChar c = true

theorem IsScheme.lower (h : IsScheme scheme) : Text.lower scheme = scheme :=
  (List.map_congr_left fun c hc => toLower_of_isSchemeChar (h.2 c hc)).trans (List.map_id scheme)

theorem IsScheme.not_mem (h : IsScheme scheme) (hc : isSchemeChar c = false) : c ∉ scheme := by
  intro hMem
  rw [h.2 c hMem] at hc
  cases hc

theorem not_isSpace_of_isSchemeChar (h : isSchemeChar c = true) : Text.isSpace c = false := by
  by_contra hSpace
  have hSpace : Text.isSpace c = true := by simpa using hSpace
  unfold Text.isSpace at hSpace
  simp only [Bool.or_eq_true, decide_eq_true_eq] at hSpace
  rcases hSpace with ((((rfl | rfl) | rfl) | rfl) | rfl) | rfl <;> revert h <;> decide

theorem parse_eq_some :
    parse url = some u ↔ ∃ start rest, cutAt "://".toList (Text.trim url) = some (start, rest) ∧
      IsScheme (Text.lower start) ∧ parseParts (Text.lower start) (parts rest) = some u := by
  unfold parse
  constructor
  · intro h
    split at h
    · cases h
    · next start rest hCut =>
      dsimp only at h
      split at h
      · cases h
      · next hScheme =>
        push Not at hScheme
        refine ⟨start, rest, hCut, ⟨?_, ?_⟩, h⟩
        · simpa [Text.lower] using hScheme.1
        · simpa using hScheme.2
  · rintro ⟨start, rest, hCut, hScheme, hParts⟩
    rw [hCut]
    dsimp only
    rw [if_neg, hParts]
    push Not
    constructor
    · simpa [Text.lower] using hScheme.1
    · simpa using hScheme.2

theorem parseParts_eq_some {p : Parts} :
    parseParts scheme p = some u ↔ ∃ host port, hostPort (userinfo p.authority).2 = some (host, port) ∧
      host ≠ [] ∧ portOf scheme port = some (u.port, u.portGiven) ∧ u.scheme = scheme ∧
      u.user = decode false (userinfo p.authority).1.1 ∧ u.passwd = decode false (userinfo p.authority).1.2 ∧
      u.host = Text.lower host ∧ u.path = p.path ∧ u.query = p.query ∧ u.fragment = p.fragment := by
  unfold parseParts
  dsimp only
  constructor
  · intro h
    split at h
    · cases h
    · next host port hHost =>
      split at h
      · cases h
      · next hNe =>
        split at h
        · cases h
        · next n given hPort =>
          cases h
          exact ⟨host, port, hHost, by simpa using hNe, hPort, rfl, rfl, rfl, rfl, rfl, rfl, rfl⟩
  · rintro ⟨host, port, hHost, hNe, hPort, h1, h2, h3, h4, h5, h6, h7⟩
    rw [hHost]
    dsimp only
    rw [if_neg (by simpa using hNe), hPort]
    cases u
    cases h1
    cases h2
    cases h3
    cases h4
    cases h5
    cases h6
    cases h7
    rfl

theorem userinfo_place (a : Text) : '@' ∉ (userinfo a).2 ∧ (userinfo a).2 ⊆ a := by
  unfold userinfo
  cases h : rcut '@' a with
  | none => exact ⟨not_mem_of_rcut h, fun _ hc => hc⟩
  | some r =>
    obtain ⟨hEq, hPlace⟩ := eq_of_rcut h
    refine ⟨hPlace, fun c hc => ?_⟩
    rw [hEq]
    simp [hc]

theorem hostPort_subset {place host port : Text} (h : hostPort place = some (host, port)) : host ⊆ place := by
  unfold hostPort at h
  split at h
  · next s =>
    have hSub {x y : Text} (hCut : cut ']' s = some (x, y)) : x ⊆ '[' :: s := by
      intro c hc
      rw [(eq_of_cut hCut).1]
      simp [hc]
    split at h
    · next x hCut =>
      cases h
      exact hSub hCut
    · next x y hCut =>
      cases h
      exact hSub hCut
    · cases h
  · cases hCut : rcut ':' place with
    | none =>
      rw [hCut] at h
      cases h
      exact fun c hc => hc
    | some r =>
      rw [hCut] at h
      cases h
      intro c hc
      rw [(eq_of_rcut hCut).1]
      simp [hc]

theorem portNumber_le {k n : Nat} {s : Text} (h : portNumber k s = some n) (hk : k ≤ 65535) : n ≤ 65535 := by
  induction s generalizing k with
  | nil =>
    cases h
    exact hk
  | cons c s ih =>
    rw [portNumber] at h
    split at h
    · dsimp only at h
      split at h
      · cases h
      · next hSmall => exact ih h (by omega)
    · cases h

theorem portOf_sound {port : Text} {n : Nat} {given : Bool} (h : portOf scheme port = some (n, given)) :
    given = false ∧ n = defaultPort scheme ∨ given = true ∧ 0 < n ∧ n ≤ 65535 := by
  unfold portOf at h
  split at h
  · cases h
    exact Or.inl ⟨rfl, rfl⟩
  · split at h
    · cases h
    · next m hZero hNumber =>
      cases h
      refine Or.inr ⟨rfl, ?_, portNumber_le hNumber (by omega)⟩
      by_contra hPos
      exact hZero (by omega)
    · cases h

end URL

namespace URLInfo

open URL

/-- What `Parse` leaves in the parts. -/
structure Parsed (u : URLInfo) : Prop where
  scheme : IsScheme u.scheme
  host_ne : u.host ≠ []
  host_lower : Text.lower u.host = u.host
  host_authority : IsAuthority u.host
  host_at : '@' ∉ u.host
  path : IsPath u.path
  query : '#' ∉ u.query
  port : u.portGiven = false ∧ u.port = defaultPort u.scheme ∨ u.portGiven = true ∧ 0 < u.port ∧ u.port ≤ 65535

end URLInfo

namespace URL

theorem parsed_of_parse {url : Text} {u : URLInfo} (h : parse url = some u) : u.Parsed := by
  obtain ⟨start, rest, -, hScheme, hParts⟩ := parse_eq_some.mp h
  obtain ⟨host, port, hHost, hNe, hPort, hEq, -, -, hLower, hPath, hQuery, -⟩ := parseParts_eq_some.mp hParts
  obtain ⟨hAuthority, hIsPath, hHash⟩ := parts_sound rest
  obtain ⟨hAt, hPlace⟩ := userinfo_place (parts rest).authority
  have hSub := hostPort_subset hHost
  have hChar (c : Char) (hc : c.toNat < 97 ∧ (c.toNat < 65 ∨ 90 < c.toNat)) (hMem : c ∈ u.host) : c ∈ host := by
    rw [hLower] at hMem
    exact (Text.mem_lower hc).mp hMem
  constructor
  · rw [hEq]
    exact hScheme
  · rw [hLower]
    simpa [Text.lower] using hNe
  · rw [hLower, Text.lower_lower]
  · refine ⟨?_, ?_, ?_⟩
    · intro hMem
      exact hAuthority.1 (hPlace (hSub (hChar '/' (by decide) hMem)))
    · intro hMem
      exact hAuthority.2.1 (hPlace (hSub (hChar '?' (by decide) hMem)))
    · intro hMem
      exact hAuthority.2.2 (hPlace (hSub (hChar '#' (by decide) hMem)))
  · intro hMem
    exact hAt (hSub (hChar '@' (by decide) hMem))
  · rw [hPath]
    exact hIsPath
  · rw [hQuery]
    exact hHash
  · rw [hEq]
    exact portOf_sound hPort

/-! ## The host and the port -/

variable {u : URLInfo} {c : Char} {s host port : Text}

theorem le_ofDigitChars (ds : Text) (k : Nat) : k ≤ Nat.ofDigitChars 10 ds k := by
  induction ds generalizing k with
  | nil => rw [Nat.ofDigitChars_nil]
  | cons c ds ih =>
    rw [Nat.ofDigitChars_cons]
    have := ih (10 * k + (c.toNat - '0'.toNat))
    omega

theorem portNumber_eq {ds : Text} {k : Nat} (hds : ∀ c ∈ ds, c.isDigit = true)
    (hk : Nat.ofDigitChars 10 ds k ≤ 65535) : portNumber k ds = some (Nat.ofDigitChars 10 ds k) := by
  induction ds generalizing k with
  | nil => rw [portNumber, Nat.ofDigitChars_nil]
  | cons c ds ih =>
    rw [Nat.ofDigitChars_cons, Nat.mul_comm] at hk ⊢
    have hSmall := le_ofDigitChars ds (k * 10 + (c.toNat - '0'.toNat))
    rw [portNumber, if_pos ((Text.isDigit_iff c).mp (hds c List.mem_cons_self))]
    dsimp only
    rw [if_neg (by omega)]
    exact ih (fun d hd => hds d (List.mem_cons_of_mem c hd)) hk

theorem portNumber_ofInt {n : Nat} (hn : n ≤ 65535) : portNumber 0 (Text.ofInt n) = some n := by
  have hValue : Nat.ofDigitChars 10 (Text.ofInt n) 0 = n := by
    rw [Text.ofInt_natCast, Nat.ofDigitChars_ten_toDigits]
  rw [portNumber_eq (fun c hc => Text.isDigit_of_mem hc) (by omega), hValue]

/-- The port that is read where `HostAndPort` writes one. -/
theorem portOf_written (hu : u.Parsed) :
    ∃ given, portOf u.scheme u.portText.tail = some (u.port, given) := by
  unfold URLInfo.portText
  split
  · next hGiven =>
    obtain ⟨hPos, hSmall⟩ : 0 < u.port ∧ u.port ≤ 65535 := by
      rcases hu.port with ⟨hNot, -⟩ | ⟨-, hPort⟩
      · rw [hNot] at hGiven
        exact absurd hGiven.1 (by decide)
      · exact hPort
    obtain ⟨c, ds, hEq, -⟩ := Text.ofInt_cons u.port
    refine ⟨true, ?_⟩
    rw [List.tail_cons, portOf, if_neg (by simp [hEq]), portNumber_ofInt hSmall]
    split
    · next hZero =>
      have := Option.some.inj hZero
      omega
    · next hNumber => rw [Option.some.inj hNumber]
    · next hNone => cases hNone
  · next hNot =>
    refine ⟨false, ?_⟩
    have hDefault : u.port = defaultPort u.scheme := by
      rcases hu.port with ⟨-, hPort⟩ | ⟨hGiven, -⟩
      · exact hPort
      · by_contra hNe
        exact hNot ⟨hGiven, hNe⟩
    rw [hDefault]
    rfl

/-- A host that is read as it is written. -/
def HostSound (host : Text) : Prop :=
  (':' ∈ host → ']' ∉ host) ∧ ∀ s, host = '[' :: s → ':' ∈ host

theorem portText_cases (u : URLInfo) :
    u.portText = [] ∨ ∃ ds, u.portText = ':' :: ds ∧ ∀ c ∈ ds, c.isDigit = true := by
  unfold URLInfo.portText
  split
  · exact Or.inr ⟨_, rfl, fun c hc => Text.isDigit_of_mem hc⟩
  · exact Or.inl rfl

theorem not_mem_portText (hDigit : c.isDigit = false) (hColon : c ≠ ':') : c ∉ u.portText := by
  rcases portText_cases u with h | ⟨ds, h, hds⟩
  · rw [h]
    exact List.not_mem_nil
  · rw [h]
    intro hMem
    rcases List.mem_cons.mp hMem with hc | hc
    · exact hColon hc
    · rw [hds c hc] at hDigit
      cases hDigit

theorem hostPort_of_sound (h : HostSound u.host) : hostPort u.hostAndPort = some (u.host, u.portText.tail) := by
  unfold URLInfo.hostAndPort URLInfo.hostText
  by_cases hColon : ':' ∈ u.host
  · have hEq : '[' :: u.host ++ [']'] ++ u.portText = '[' :: (u.host ++ ']' :: u.portText) := by simp
    rw [if_pos hColon, hEq, hostPort, cut_append (h.1 hColon)]
    rcases portText_cases u with hPort | ⟨ds, hPort, -⟩ <;> rw [hPort] <;> rfl
  · rw [if_neg hColon]
    have hOpen (s : Text) : u.host ++ u.portText ≠ '[' :: s := by
      intro hEq
      cases hHost : u.host with
      | nil =>
        rcases portText_cases u with hPort | ⟨ds, hPort, -⟩ <;> rw [hHost, hPort] at hEq <;> cases hEq
      | cons c t =>
        rw [hHost] at hEq
        cases hEq
        exact hColon (h.2 t hHost)
    rw [hostPort.eq_2 _ fun s hs => hOpen s hs]
    rcases portText_cases u with hPort | ⟨ds, hPort, hds⟩
    · rw [hPort, List.append_nil, rcut_none hColon]
      rfl
    · rw [hPort, rcut_append]
      · rfl
      · intro hMem
        exact absurd (hds ':' hMem) (by decide)

theorem cut_length {x y t : Text} (hc : c ∈ s) (h : cut c (s ++ t) = some (x, y)) : x.length < s.length := by
  obtain ⟨a, b, hEq, ha⟩ := List.eq_append_cons_of_mem hc
  rw [hEq, List.append_assoc, List.cons_append, cut_append ha] at h
  cases h
  rw [hEq, List.length_append, List.length_cons]
  omega

theorem hostPort_literal {place : Text} (h : hostPort ('[' :: place) = some (host, port)) :
    ∃ rest, cut ']' place = some (host, rest) := by
  rw [hostPort] at h
  split at h
  · next x hCut =>
    cases h
    exact ⟨_, hCut⟩
  · next x y hCut =>
    cases h
    exact ⟨_, hCut⟩
  · cases h

theorem hostPort_of_not_sound (h : ¬HostSound u.host) (hRead : hostPort u.hostAndPort = some (host, port)) :
    host.length < u.host.length := by
  unfold URLInfo.hostAndPort URLInfo.hostText at hRead
  by_cases hColon : ':' ∈ u.host
  · have hClose : ']' ∈ u.host := by
      by_contra hClose
      exact h ⟨fun _ => hClose, fun _ _ => hColon⟩
    rw [if_pos hColon, List.cons_append, List.cons_append, List.append_assoc] at hRead
    obtain ⟨rest, hCut⟩ := hostPort_literal hRead
    exact cut_length hClose hCut
  · obtain ⟨s, hs⟩ : ∃ s, u.host = '[' :: s := by
      by_contra hNone
      exact h ⟨fun hMem => absurd hMem hColon, fun s hs => absurd ⟨s, hs⟩ hNone⟩
    rw [if_neg hColon, hs, List.cons_append] at hRead
    obtain ⟨rest, hCut⟩ := hostPort_literal hRead
    have hClose : ']' ∈ s := by
      have hMem : ']' ∈ s ++ u.portText := by
        rw [(eq_of_cut hCut).1]
        simp
      rcases List.mem_append.mp hMem with hMem | hMem
      · exact hMem
      · exact absurd hMem (not_mem_portText (by decide) (by decide))
    have := cut_length hClose hCut
    rw [hs, List.length_cons]
    omega

/-! ## The whole text -/

theorem IsScheme.trimLeft {scheme : Text} (h : IsScheme scheme) (t : Text) :
    Text.trimLeft (scheme ++ t) = scheme ++ t := by
  cases hs : scheme with
  | nil => exact absurd hs h.1
  | cons c s =>
    have hSpace : Text.isSpace c = false := not_isSpace_of_isSchemeChar (h.2 c (by rw [hs]; exact List.mem_cons_self))
    exact Text.trimLeft_cons_of_not_isSpace hSpace

/-- A text from its scheme on, of which white space at the end is left out. -/
theorem parse_written {scheme rest t : Text} (hScheme : IsScheme scheme)
    (ht : Text.trimRight t = scheme ++ "://".toList ++ rest) (hStart : ∃ s, t = scheme ++ s) :
    parse t = parseParts scheme (parts rest) := by
  obtain ⟨s, hs⟩ := hStart
  have hTrim : Text.trim t = scheme ++ "://".toList ++ rest := by
    rw [Text.trim, hs, hScheme.trimLeft, ← hs, ht]
  have hCut : cutAt "://".toList (scheme ++ "://".toList ++ rest) = some (scheme, rest) :=
    cutAt_append (hScheme.not_mem (by decide))
  unfold parse
  rw [hTrim, hCut]
  dsimp only
  rw [hScheme.lower, if_neg]
  push Not
  exact ⟨by simpa using hScheme.1, by simpa using hScheme.2⟩

/-- The path as it is written. -/
def writtenPath (path : Text) : Text := if path.isEmpty then ['/'] else path

theorem writtenPath_cons {path : Text} (h : IsPath path) : ∃ t, writtenPath path = '/' :: t := by
  unfold writtenPath
  cases path with
  | nil => exact ⟨[], rfl⟩
  | cons c t =>
    cases h.1 c t rfl
    exact ⟨t, rfl⟩

theorem IsPath.written {path : Text} (h : IsPath path) : IsPath (writtenPath path) := by
  unfold writtenPath
  split
  · exact ⟨by rintro c t hEq; cases hEq; rfl, by decide, by decide⟩
  · exact h

/-- The text of a path and query does not end in white space. -/
def EndsSound (path query : Text) : Prop :=
  ∀ c ∈ (if query.isEmpty then path else query).getLast?, Text.isSpace c = false

theorem trimRight_eq_self {t : Text} :
    Text.trimRight t = t ↔ ∀ c ∈ t.getLast?, Text.isSpace c = false := by
  unfold Text.trimRight
  rw [List.rdropWhile_eq_self_iff]
  constructor
  · intro h c hc
    obtain ⟨hNe, rfl⟩ := List.mem_getLast?_eq_getLast hc
    simpa using h hNe
  · intro h hNe
    simpa using h _ (List.getLast?_eq_some_getLast hNe)

theorem trimRight_append_cons {x y : Text} (hc : Text.isSpace c = false) :
    Text.trimRight (x ++ c :: y) = x ++ c :: Text.trimRight y := rdropWhile_append_cons hc

theorem trimRight_subset (t : Text) : Text.trimRight t ⊆ t := (List.rdropWhile_prefix _ t).subset

theorem trimRight_writtenPath {path : Text} (h : IsPath path) :
    IsPath (Text.trimRight (writtenPath path)) ∧
      (Text.trimRight (writtenPath path) = writtenPath path ↔ EndsSound path []) := by
  obtain ⟨t, hPath⟩ := writtenPath_cons h
  have hWritten := h.written
  have hTrim : Text.trimRight ('/' :: t) = '/' :: Text.trimRight t := trimRight_append_cons (x := []) (by decide)
  refine ⟨⟨?_, ?_, ?_⟩, ?_⟩
  · intro c s hEq
    rw [hPath, hTrim] at hEq
    exact (List.cons.inj hEq).1.symm
  · intro hMem
    exact hWritten.2.1 (trimRight_subset _ hMem)
  · intro hMem
    exact hWritten.2.2 (trimRight_subset _ hMem)
  · rw [trimRight_eq_self, EndsSound]
    unfold writtenPath
    cases path with
    | nil => simp [Text.isSpace]
    | cons c s => exact Iff.rfl

theorem pathAndQuery_cons (hu : u.Parsed) : ∃ t, u.pathAndQuery = '/' :: t := by
  obtain ⟨t, ht⟩ := writtenPath_cons hu.path
  exact ⟨_, congrArg (· ++ if u.query.isEmpty then [] else '?' :: u.query) ht⟩

/-- What is left of the path and of the query. -/
theorem trimRight_pathAndQuery (hu : u.Parsed) :
    ∃ path query, Text.trimRight u.pathAndQuery = path ++ suffixed '?' query ∧ IsPath path ∧
      (∀ q ∈ query, '#' ∉ q) ∧
      (path = writtenPath u.path ∧ query.getD [] = u.query ↔ EndsSound u.path u.query) := by
  unfold URLInfo.pathAndQuery
  rw [← writtenPath]
  cases hQuery : u.query with
  | nil =>
    obtain ⟨hIsPath, hEnd⟩ := trimRight_writtenPath hu.path
    refine ⟨Text.trimRight (writtenPath u.path), none, ?_, hIsPath, nofun, ?_⟩
    · rw [suffixed, List.isEmpty_nil, if_pos rfl, List.append_nil, List.append_nil]
    · rw [← hEnd]
      exact and_iff_left rfl
  | cons c q =>
    have hSub := trimRight_subset (c :: q)
    refine ⟨writtenPath u.path, some (Text.trimRight (c :: q)), ?_, hu.path.written, ?_, ?_⟩
    · rw [List.isEmpty_cons, if_neg Bool.false_ne_true]
      exact trimRight_append_cons (by decide)
    · rintro q' ⟨⟩ hMem
      exact hu.query (hQuery ▸ hSub hMem)
    · rw [EndsSound, List.isEmpty_cons, if_neg Bool.false_ne_true, ← trimRight_eq_self]
      exact and_iff_right rfl

/-! ## The user -/

theorem not_mem_encode {s : Text} (hs : Text.IsBytes s) (hPlain : isUnreserved c = false) (hc : c ≠ '%') :
    c ∉ encode s := by
  intro hMem
  rcases encode_unreserved hs hMem with h | h
  · rw [h] at hPlain
    cases hPlain
  · exact hc h

theorem not_mem_hostAndPort (hHost : c ∉ u.host) (hDigit : c.isDigit = false)
    (hc : c ≠ ':' ∧ c ≠ '[' ∧ c ≠ ']') : c ∉ u.hostAndPort := by
  unfold URLInfo.hostAndPort URLInfo.hostText
  rw [List.mem_append, not_or]
  refine ⟨?_, not_mem_portText hDigit hc.1⟩
  split
  · simpa using ⟨hc.2.1, hHost, hc.2.2⟩
  · exact hHost

theorem hostAndPort_authority (hu : u.Parsed) : IsAuthority u.hostAndPort ∧ '@' ∉ u.hostAndPort := by
  obtain ⟨hSlash, hMark, hHash⟩ := hu.host_authority
  refine ⟨⟨?_, ?_, ?_⟩, ?_⟩
  · exact not_mem_hostAndPort hSlash (by decide) (by decide)
  · exact not_mem_hostAndPort hMark (by decide) (by decide)
  · exact not_mem_hostAndPort hHash (by decide) (by decide)
  · exact not_mem_hostAndPort hu.host_at (by decide) (by decide)

theorem userinfo_written (hu : u.Parsed) (hUser : Text.IsBytes u.user) :
    userinfo (u.userText ++ u.hostAndPort) =
      ((encode u.user, if u.user.isEmpty ∨ u.passwd.isEmpty then [] else encode u.passwd), u.hostAndPort) := by
  have hAt := (hostAndPort_authority hu).2
  have hColon : ':' ∉ encode u.user := not_mem_encode hUser (by decide) (by decide)
  unfold userinfo URLInfo.userText
  cases hEq : u.user with
  | nil =>
    rw [List.isEmpty_nil, if_pos rfl, List.nil_append, rcut_none hAt, if_pos (Or.inl rfl)]
    rfl
  | cons c s =>
    rw [hEq] at hColon
    rw [List.isEmpty_cons, if_neg Bool.false_ne_true, List.append_assoc, List.singleton_append, rcut_append hAt]
    dsimp only
    by_cases hPasswd : u.passwd.isEmpty = true
    · rw [if_pos hPasswd, if_pos (Or.inr hPasswd), List.append_nil, beforeAfter_none hColon]
    · rw [if_neg hPasswd, if_neg (by simpa using hPasswd), beforeAfter_append hColon]

theorem userText_authority (hUser : Text.IsBytes u.user) (hPasswd : Text.IsBytes u.passwd) :
    IsAuthority u.userText := by
  have hText (c : Char) (hPlain : isUnreserved c = false) (hc : c ≠ '%') (hSep : c ≠ ':' ∧ c ≠ '@') :
      c ∉ u.userText := by
    have hu := not_mem_encode hUser hPlain hc
    have hp := not_mem_encode hPasswd hPlain hc
    unfold URLInfo.userText
    split
    · exact List.not_mem_nil
    · split <;> simp [hu, hp, hSep]
  refine ⟨?_, ?_, ?_⟩
  · exact hText '/' (by decide) (by decide) (by decide)
  · exact hText '?' (by decide) (by decide) (by decide)
  · exact hText '#' (by decide) (by decide) (by decide)

theorem IsAuthority.append {x y : Text} (hx : IsAuthority x) (hy : IsAuthority y) : IsAuthority (x ++ y) := by
  refine ⟨?_, ?_, ?_⟩ <;> rw [List.mem_append, not_or]
  · exact ⟨hx.1, hy.1⟩
  · exact ⟨hx.2.1, hy.2.1⟩
  · exact ⟨hx.2.2, hy.2.2⟩

/-! ## The second reading -/

/-- The parts that a URL without fragment has are the same, and an empty path is `/`. -/
structure SameTarget (v u : URLInfo) : Prop where
  scheme : v.scheme = u.scheme
  user : v.user = u.user
  passwd : v.passwd = u.passwd
  host : v.host = u.host
  port : v.port = u.port
  query : v.query = u.query
  path : v.path = writtenPath u.path

theorem parse_toString (hu : u.Parsed) (hUser : Text.IsBytes u.user) (hPasswd : Text.IsBytes u.passwd) :
    ∃ path query, parse u.toString =
        parseParts u.scheme ⟨u.userText ++ u.hostAndPort, path, query, []⟩ ∧
      (path = writtenPath u.path ∧ query = u.query ↔ EndsSound u.path u.query) := by
  obtain ⟨path, query, hTrim, hIsPath, hHash, hEnd⟩ := trimRight_pathAndQuery hu
  obtain ⟨t, hSlash⟩ := pathAndQuery_cons hu
  have hAuthority := (userText_authority hUser hPasswd).append (hostAndPort_authority hu).1
  refine ⟨path, query.getD [], ?_, hEnd⟩
  have hParts : parts (u.userText ++ u.hostAndPort ++ path ++ suffixed '?' query ++ suffixed '#' none) =
      ⟨u.userText ++ u.hostAndPort, path, query.getD [], []⟩ := parts_eq hAuthority hIsPath hHash
  rw [suffixed, List.append_nil] at hParts
  rw [← hParts]
  apply parse_written hu.scheme
  · unfold URLInfo.toString
    rw [hSlash, trimRight_append_cons (by decide)]
    rw [hSlash, ← List.nil_append ('/' :: t), trimRight_append_cons (by decide), List.nil_append] at hTrim
    rw [hTrim]
    simp only [List.append_assoc]
  · exact ⟨_, by unfold URLInfo.toString; simp only [List.append_assoc]; rfl⟩

theorem sameTarget_iff (hu : u.Parsed) (hUser : Text.IsBytes u.user) (hPasswd : Text.IsBytes u.passwd) :
    (∃ v, parse u.toString = some v ∧ SameTarget v u) ↔
      (u.user = [] → u.passwd = []) ∧ HostSound u.host ∧ EndsSound u.path u.query := by
  obtain ⟨path, query, hParse, hEnd⟩ := parse_toString hu hUser hPasswd
  have hInfo := userinfo_written hu hUser
  rw [hParse]
  constructor
  · rintro ⟨v, hv, hSame⟩
    obtain ⟨host, port, hHost, -, -, -, -, hPass, hLower, hPath, hQuery, -⟩ := parseParts_eq_some.mp hv
    dsimp only at hHost hPass hPath hQuery
    rw [hInfo] at hHost hPass
    refine ⟨?_, ?_, ?_⟩
    · intro hNone
      rw [if_pos (Or.inl (by simp [hNone])), hSame.passwd] at hPass
      exact hPass
    · by_contra hNot
      have hShort := hostPort_of_not_sound hNot hHost
      rw [← hSame.host, hLower, Text.lower, List.length_map] at hShort
      omega
    · apply hEnd.mp
      exact ⟨hPath.symm.trans hSame.path, hQuery.symm.trans hSame.query⟩
  · rintro ⟨hPass, hHost, hEnds⟩
    obtain ⟨hPath, hQuery⟩ := hEnd.mpr hEnds
    obtain ⟨given, hPort⟩ := portOf_written hu
    have hRead : decode false (if u.user.isEmpty ∨ u.passwd.isEmpty then [] else encode u.passwd) = u.passwd := by
      split
      · next hEmpty =>
        rcases hEmpty with hEmpty | hEmpty
        · rw [hPass (List.isEmpty_iff.mp hEmpty)]
          rfl
        · rw [List.isEmpty_iff.mp hEmpty]
          rfl
      · exact decode_encode hPasswd
    refine ⟨⟨u.scheme, u.user, u.passwd, u.host, u.port, given, path, query, []⟩, ?_, ?_⟩
    · apply parseParts_eq_some.mpr
      dsimp only
      rw [hInfo]
      exact ⟨u.host, u.portText.tail, hostPort_of_sound hHost, hu.host_ne, hPort, rfl,
        (decode_encode hUser).symm, hRead.symm, hu.host_lower.symm, rfl, rfl, rfl⟩
    · exact ⟨rfl, rfl, rfl, rfl, rfl, hQuery, hPath⟩

/-- What the text of a URL has to be like for that: a password comes with a user, brackets in the host do not
meet those that are written around it, and no white space stands before the fragment. -/
def Rereads (url : Text) : Prop :=
  ∀ start rest, cutAt "://".toList (Text.trim url) = some (start, rest) →
    let info := userinfo (parts rest).authority
    (info.1.1 = [] → info.1.2 = []) ∧
      (∀ host port, hostPort info.2 = some (host, port) → HostSound host) ∧
      EndsSound (parts rest).path (parts rest).query

theorem hostSound_lower : HostSound (Text.lower host) ↔ HostSound host := by
  unfold HostSound
  rw [Text.mem_lower (d := ':') (by decide), Text.mem_lower (d := ']') (by decide)]
  refine and_congr Iff.rfl ⟨?_, ?_⟩
  · intro h s hs
    apply h (Text.lower s)
    rw [hs]
    rfl
  · intro h s hs
    obtain ⟨c, t, hHost, hc, -⟩ := List.map_eq_cons_iff.mp hs
    rw [(Text.toLower_eq_iff (d := '[') (by decide)).mp hc] at hHost
    exact h t hHost

theorem userinfo_subset (a : Text) : (userinfo a).1.1 ⊆ a ∧ (userinfo a).1.2 ⊆ a := by
  unfold userinfo
  cases h : rcut '@' a with
  | none => exact ⟨List.nil_subset a, List.nil_subset a⟩
  | some r =>
    have hInfo : r.1 ⊆ a := by
      intro c hc
      rw [(eq_of_rcut h).1]
      simp [hc]
    have hSub := beforeAfter_subset ':' r.1
    exact ⟨fun c hc => hInfo (hSub.1 hc), fun c hc => hInfo (hSub.2 hc)⟩

theorem authority_subset (rest : Text) : (parts rest).authority ⊆ rest := by
  intro c hc
  have hMark := (List.takeWhile_prefix _).subset hc
  exact (beforeAfter_subset '#' rest).1 ((beforeAfter_subset '?' _).1 hMark)

/-- What is accepted is read again from what is written of it exactly if its text is of that kind, and encoded
bytes are decoded as they were. -/
theorem parse_toString_iff (url s : Text) (u : URLInfo) :
    (Text.IsBytes url → parse url = some u →
      ((∃ v, parse u.toString = some v ∧ SameTarget v u) ↔ Rereads url)) ∧
      (Text.IsBytes s → decode false (encode s) = s) := by
  refine ⟨fun hBytes h => ?_, decode_encode⟩
  have hu := parsed_of_parse h
  obtain ⟨start, rest, hCut, -, hParts⟩ := parse_eq_some.mp h
  obtain ⟨host, port, hHost, -, -, -, hUser, hPasswd, hLower, hPath, hQuery, -⟩ := parseParts_eq_some.mp hParts
  have hRest : rest ⊆ url := by
    intro c hc
    have hMem : c ∈ Text.trim url := by
      rw [eq_of_cutAt hCut]
      simp [hc]
    exact (Text.isInfix_trim url).subset hMem
  have hAuthority : Text.IsBytes (parts rest).authority := fun c hc => hBytes c (hRest (authority_subset rest hc))
  have hInfo := userinfo_subset (parts rest).authority
  have hUserBytes : Text.IsBytes u.user := by
    rw [hUser]
    exact isBytes_decode (fun c hc => hAuthority c (hInfo.1 hc)) false
  have hPasswdBytes : Text.IsBytes u.passwd := by
    rw [hPasswd]
    exact isBytes_decode (fun c hc => hAuthority c (hInfo.2 hc)) false
  rw [sameTarget_iff hu hUserBytes hPasswdBytes, hUser, hPasswd, hLower, hPath, hQuery, decode_eq_nil,
    decode_eq_nil, hostSound_lower]
  constructor
  · rintro ⟨hUserInfo, hSound, hEnds⟩ start' rest' hCut'
    rw [hCut] at hCut'
    cases hCut'
    refine ⟨hUserInfo, fun host' port' hHost' => ?_, hEnds⟩
    rw [hHost] at hHost'
    cases hHost'
    exact hSound
  · intro hRereads
    obtain ⟨hUserInfo, hSound, hEnds⟩ := hRereads start rest hCut
    exact ⟨hUserInfo, hSound host port hHost, hEnds⟩

/-- A URL with all parts that are read again. -/
def sampleURL : URLInfo where
  scheme := "https".toList
  user := "me".toList
  passwd := "a b".toList
  host := "::1".toList
  port := 8443
  portGiven := true
  path := "/p".toList
  query := "q".toList
  fragment := "f".toList

theorem parse_toString_iff_sample : ∃ v, parse sampleURL.toString = some v ∧ SameTarget v sampleURL := by
  have hBytes : Text.IsBytes "https://me:a%20b@[::1]:8443/p?q#f".toList := by
    simp [Text.IsBytes]
  apply ((parse_toString_iff "https://me:a%20b@[::1]:8443/p?q#f".toList [] sampleURL).1 hBytes
    (by decide +kernel)).mpr
  intro start rest hCut
  have hRest : cutAt "://".toList (Text.trim "https://me:a%20b@[::1]:8443/p?q#f".toList) =
      some ("https".toList, "me:a%20b@[::1]:8443/p?q#f".toList) := by decide +kernel
  rw [hRest] at hCut
  cases hCut
  refine ⟨by decide +kernel, fun host port hHost => ?_, by rintro c ⟨⟩; rfl⟩
  have hLiteral : hostPort (userinfo (parts "me:a%20b@[::1]:8443/p?q#f".toList).authority).2 =
      some ("::1".toList, "8443".toList) := by decide +kernel
  rw [hLiteral] at hHost
  cases hHost
  exact ⟨by decide, fun _ hs => by cases hs⟩

/-- A password without a user is not written. -/
theorem parse_toString_loses :
    ¬∀ url u, Text.IsBytes url → parse url = some u →
      ∃ v, parse u.toString = some v ∧ SameTarget v u := by
  intro hAll
  let u : URLInfo := ⟨"ftp".toList, [], "p".toList, "h".toList, 21, false, [], [], []⟩
  have hBytes : Text.IsBytes "ftp://:p@h".toList := by
    simp [Text.IsBytes]
  obtain ⟨v, hv, hSame⟩ := hAll "ftp://:p@h".toList u hBytes (by decide +kernel)
  have hRead : parse u.toString = some ⟨"ftp".toList, [], [], "h".toList, 21, false, "/".toList, [], []⟩ := by
    decide +kernel
  rw [hRead] at hv
  cases hv
  cases hSame.passwd

end URL

end DataReel
