import DataReel.Net.UrlRoundTrip

/-! # Relative references

The target of a reference as RFC 3986 states it, with dot segments left in place, beside what `Resolve` makes.
-/

namespace DataReel

namespace URL

/-! ## The target of a reference -/

structure Reference where
  authority : Option Text
  path : Text
  query : Option Text
  deriving DecidableEq

/-- What stands before the query. -/
def beforeQuery (t : Text) : Text := (beforeAfter '?' (beforeAfter '#' t).1).1

def queryOf (t : Text) : Option Text := (cut '?' (beforeAfter '#' t).1).map Prod.snd

def referenceOf (location : Text) : Reference :=
  match beforeQuery location with
  | '/' :: '/' :: s => ⟨some (s.takeWhile (· ≠ '/')), s.dropWhile (· ≠ '/'), queryOf location⟩
  | path => ⟨none, path, queryOf location⟩

/-- The path of a reference after all of the base's but its last segment. -/
def mergePaths (base path : Text) : Text :=
  if base.isEmpty then '/' :: path else base.rdropWhile (· ≠ '/') ++ path

/-- The path and the query of the target. -/
def targetOf (base : URLInfo) (r : Reference) : Text × Text :=
  if r.authority.isSome ∨ Text.startsWith r.path ['/'] then (r.path, r.query.getD [])
  else if r.path.isEmpty then (base.path, r.query.getD base.query)
  else (mergePaths base.path r.path, r.query.getD [])

/-- The host and the port are those that an authority names, the base's if the reference has none. -/
def HasAuthority (base v : URLInfo) : Option Text → Prop
  | none => v.host = base.host ∧ v.port = base.port
  | some a => ∃ host port, hostPort (userinfo a).2 = some (host, port) ∧ v.host = Text.lower host ∧
      portOf base.scheme port = some (v.port, v.portGiven)

structure IsTarget (base : URLInfo) (r : Reference) (v : URLInfo) : Prop where
  scheme : v.scheme = base.scheme
  authority : HasAuthority base v r.authority
  target : (v.path, v.query) = targetOf base r

/-! ## What is resolved -/

/-- The reference has no `://`. If it has an authority, that is one with a host and, if it has a port, with one
from 1 to 65535; else the base's host is read as it is written, and where the reference has no path, the base's
path ends a directory and its query is not to be kept. -/
def Resolvable (base : URLInfo) (location : Text) : Prop :=
  let r := referenceOf (Text.trim location)
  ¬"://".toList <:+: Text.trim location ∧
    match r.authority with
    | some a => ∃ host port, hostPort (userinfo a).2 = some (host, port) ∧ host ≠ [] ∧
        (portOf base.scheme port).isSome
    | none => HostSound base.host ∧
        (r.path = [] → base.path.getLast? = some '/' ∧ (r.query = none → base.query = []))

variable {base v : URLInfo} {x y t s loc path : Text}

theorem beforeAfter_append_left {c : Char} (h : c ∉ x) (y : Text) :
    beforeAfter c (x ++ y) = (x ++ (beforeAfter c y).1, (beforeAfter c y).2) := by
  rcases beforeAfter_cases c y with ⟨hEq, hNone⟩ | hEq
  · rw [hEq, beforeAfter_none]
    rw [List.mem_append, not_or]
    exact ⟨h, hNone⟩
  · have hMem : c ∉ x ++ (beforeAfter c y).1 := by
      rw [List.mem_append, not_or]
      exact ⟨h, not_mem_beforeAfter c y⟩
    have hWhole : x ++ y = (x ++ (beforeAfter c y).1) ++ c :: (beforeAfter c y).2 := by
      rw [List.append_assoc, ← hEq]
    rw [hWhole, beforeAfter_append hMem]

theorem beforeQuery_append (hHash : '#' ∉ x) (hMark : '?' ∉ x) (y : Text) :
    beforeQuery (x ++ y) = x ++ beforeQuery y := by
  unfold beforeQuery
  rw [beforeAfter_append_left hHash]
  dsimp only
  rw [beforeAfter_append_left hMark]

theorem snd_beforeAfter (c : Char) (t : Text) : (beforeAfter c t).2 = ((cut c t).map Prod.snd).getD [] := by
  unfold beforeAfter
  cases cut c t <;> rfl

theorem cut_append_left {c : Char} (h : c ∉ x) (y : Text) :
    (cut c (x ++ y)).map Prod.snd = (cut c y).map Prod.snd := by
  cases hCut : cut c y with
  | none =>
    rw [cut_none]
    rw [List.mem_append, not_or]
    exact ⟨h, not_mem_of_cut hCut⟩
  | some r =>
    obtain ⟨hEq, hMem⟩ := eq_of_cut hCut
    have hAll : c ∉ x ++ r.1 := by
      rw [List.mem_append, not_or]
      exact ⟨h, hMem⟩
    rw [hEq, ← List.append_assoc, cut_append hAll]
    rfl

theorem queryOf_append (hHash : '#' ∉ x) (hMark : '?' ∉ x) (y : Text) : queryOf (x ++ y) = queryOf y := by
  unfold queryOf
  rw [beforeAfter_append_left hHash]
  exact cut_append_left hMark _

theorem parts_eq_reference (t : Text) :
    parts t = ⟨(beforeQuery t).takeWhile (· ≠ '/'), (beforeQuery t).dropWhile (· ≠ '/'), (queryOf t).getD [],
      (beforeAfter '#' t).2⟩ := by
  unfold queryOf
  rw [← snd_beforeAfter]
  rfl

/-- An authority in front of a path is read as it is written. -/
theorem parts_append (hx : IsAuthority x) (hHead : ∃ s, beforeQuery t = '/' :: s) :
    parts (x ++ t) = ⟨x, beforeQuery t, (queryOf t).getD [], (beforeAfter '#' t).2⟩ := by
  obtain ⟨s, hs⟩ := hHead
  have hFirst : ∀ c u, beforeQuery t = c :: u → c = '/' := by
    intro c u hEq
    rw [hs] at hEq
    exact (List.cons.inj hEq).1.symm
  have hSpan := takeWhile_authority hx.1 hFirst
  rw [parts_eq_reference, beforeQuery_append hx.2.2 hx.2.1, queryOf_append hx.2.2 hx.2.1,
    beforeAfter_append_left hx.2.2, hSpan.1, hSpan.2]

theorem beforeQuery_subset (t : Text) : beforeQuery t ⊆ t := by
  intro c hc
  exact (beforeAfter_subset '#' t).1 ((beforeAfter_subset '?' _).1 hc)

/-! ## The forms of a reference -/

theorem referenceOf_network (s : Text) :
    referenceOf ('/' :: '/' :: s) =
      ⟨some (parts s).authority, (parts s).path, queryOf s⟩ := by
  have hHash : '#' ∉ ['/', '/'] := by decide
  have hMark : '?' ∉ ['/', '/'] := by decide
  have hEq : beforeQuery ('/' :: '/' :: s) = '/' :: '/' :: beforeQuery s := beforeQuery_append hHash hMark s
  have hQuery : queryOf ('/' :: '/' :: s) = queryOf s := queryOf_append hHash hMark s
  unfold referenceOf
  rw [hEq, hQuery]
  rfl

theorem isPrefix_beforeQuery (t : Text) : beforeQuery t <+: t := by
  have hFirst (c : Char) (u : Text) : (beforeAfter c u).1 <+: u := by
    rcases beforeAfter_cases c u with ⟨hEq, -⟩ | hEq
    · rw [hEq]
    · exact ⟨_, hEq.symm⟩
  exact (hFirst '?' _).trans (hFirst '#' t)

theorem referenceOf_path (h : Text.startsWith t "//".toList = false) :
    referenceOf t = ⟨none, beforeQuery t, queryOf t⟩ := by
  unfold referenceOf
  split
  · next s hEq =>
    have hPrefix := isPrefix_beforeQuery t
    rw [hEq] at hPrefix
    obtain ⟨r, hr⟩ := hPrefix
    rw [← hr] at h
    cases h
  · rfl

theorem trimRight_trim (t : Text) : Text.trimRight (Text.trim t) = Text.trim t :=
  List.rdropWhile_idempotent _ _

theorem not_infix_of_cutAt (h : cutAt "://".toList t = none) : ¬"://".toList <:+: t := by
  intro hInfix
  have := cutAt_isSome hInfix
  rw [h] at this
  cases this

/-! ## A reference that holds `://` -/

/-- What is read of such a reference has a shorter path than the target. -/
theorem not_target_of_parse (hTrim : Text.trim loc = loc) (hParse : parse loc = some v) : ¬IsTarget base (referenceOf loc) v := by
  intro h
  obtain ⟨start, rest, hCut, hScheme, hParts⟩ := parse_eq_some.mp hParse
  rw [hTrim] at hCut
  have hChar {c : Char} (hc : isSchemeChar (Text.toLower c) = false) : c ∉ start ++ "://".toList ∨ c = ':' ∨ c = '/' := by
    by_cases hColon : c = ':' ∨ c = '/'
    · exact Or.inr hColon
    · left
      intro hMem
      rcases List.mem_append.mp hMem with hMem | hMem
      · have hAll := hScheme.2 (Text.toLower c) (List.mem_map_of_mem hMem)
        rw [hAll] at hc
        cases hc
      · simp at hMem
        tauto
  have hHash : '#' ∉ start ++ "://".toList := by simpa using hChar (c := '#') (by decide)
  have hMark : '?' ∉ start ++ "://".toList := by simpa using hChar (c := '?') (by decide)
  have hLoc := eq_of_cutAt hCut
  obtain ⟨c, s, hStart⟩ : ∃ c s, start = c :: s := by
    cases hStart : start with
    | nil => exact absurd (by rw [hStart]; rfl) hScheme.1
    | cons c s => exact ⟨c, s, rfl⟩
  have hFirst : c ≠ '/' := by
    rintro rfl
    have hAll := hScheme.2 (Text.toLower '/') (List.mem_map_of_mem (by rw [hStart]; exact List.mem_cons_self))
    exact absurd hAll (by decide)
  have hQuery : beforeQuery loc = start ++ "://".toList ++ beforeQuery rest := by
    rw [hLoc]
    exact beforeQuery_append hHash hMark rest
  have hNotSlash : Text.startsWith loc "//".toList = false := by
    rw [hLoc, hStart]
    simp [Text.startsWith, List.isPrefixOf, Ne.symm hFirst]
  have hTarget := congrArg Prod.fst h.target
  rw [referenceOf_path hNotSlash] at hTarget
  unfold targetOf at hTarget
  rw [if_neg (by rw [hQuery, hStart]; simp [Text.startsWith, List.isPrefixOf, Ne.symm hFirst]),
    if_neg (by rw [hQuery, hStart]; simp)] at hTarget
  obtain ⟨-, -, -, -, -, -, -, -, -, hPath, -⟩ := parseParts_eq_some.mp hParts
  have hLength : (parts rest).path.length ≤ (beforeQuery rest).length := by
    rw [parts_eq_reference]
    exact (List.dropWhile_suffix _).length_le
  have hMerge : (beforeQuery loc).length ≤ (mergePaths base.path (beforeQuery loc)).length := by
    unfold mergePaths
    split <;> simp
  dsimp only at hTarget
  rw [← hTarget, hPath, hQuery, List.length_append, List.length_append] at hMerge
  have : "://".toList.length = 3 := rfl
  omega

/-! ## The base's host -/

/-- A path and a query behind the base's host and port. -/
theorem parse_behind_host (hBase : base.Parsed) {p : Parts} (hp : p.authority = base.hostAndPort)
    (path query : Text) : (∃ v, parseParts base.scheme p = some v ∧ v.scheme = base.scheme ∧ v.host = base.host ∧
        v.port = base.port ∧ (v.path, v.query) = (path, query)) ↔
      HostSound base.host ∧ p.path = path ∧ p.query = query := by
  have hInfo : userinfo p.authority = (([], []), base.hostAndPort) := by
    unfold userinfo
    rw [hp, rcut_none (hostAndPort_authority hBase).2]
  constructor
  · rintro ⟨v, hv, -, hHost, -, hTarget⟩
    obtain ⟨host, port, hRead, -, -, -, -, -, hLower, hPath, hQuery, -⟩ := parseParts_eq_some.mp hv
    rw [hInfo] at hRead
    refine ⟨?_, ?_, ?_⟩
    · by_contra hNot
      have hShort := hostPort_of_not_sound hNot hRead
      rw [← hHost, hLower, Text.lower, List.length_map] at hShort
      omega
    · rw [← hPath]
      exact congrArg Prod.fst hTarget
    · rw [← hQuery]
      exact congrArg Prod.snd hTarget
  · rintro ⟨hSound, rfl, rfl⟩
    obtain ⟨given, hPort⟩ := portOf_written hBase
    refine ⟨⟨base.scheme, [], [], base.host, base.port, given, p.path, p.query, p.fragment⟩, ?_, rfl, rfl, rfl, rfl⟩
    apply parseParts_eq_some.mpr
    rw [hInfo]
    exact ⟨base.host, base.portText.tail, hostPort_of_sound hSound, hBase.host_ne, hPort, rfl, rfl, rfl,
      hBase.host_lower.symm, rfl, rfl, rfl⟩

/-- The text that is read for a reference without authority. -/
theorem parse_behind (hBase : base.Parsed) (hTrim : Text.trimRight t = t) (hHead : ∃ s, beforeQuery t = '/' :: s) :
    parse (base.scheme ++ "://".toList ++ base.hostAndPort ++ t) =
      parseParts base.scheme ⟨base.hostAndPort, beforeQuery t, (queryOf t).getD [], (beforeAfter '#' t).2⟩ := by
  obtain ⟨s, hs⟩ : ∃ s, t = '/' :: s := by
    obtain ⟨s, hs⟩ := hHead
    obtain ⟨r, hr⟩ := isPrefix_beforeQuery t
    rw [hs] at hr
    exact ⟨s ++ r, hr.symm⟩
  rw [← parts_append (hostAndPort_authority hBase).1 hHead]
  apply parse_written hBase.scheme
  · have hRest : Text.trimRight s = s := by
      rw [hs, ← List.nil_append ('/' :: s), trimRight_append_cons (by decide), List.nil_append] at hTrim
      exact (List.cons.inj hTrim).2
    rw [hs, trimRight_append_cons (by decide), hRest]
    simp only [List.append_assoc]
  · exact ⟨_, by simp only [List.append_assoc]; rfl⟩

theorem isTarget_none {r : Reference} (hr : r.authority = none) :
    IsTarget base r v ↔ v.scheme = base.scheme ∧ v.host = base.host ∧ v.port = base.port ∧
      (v.path, v.query) = targetOf base r := by
  constructor
  · rintro ⟨hScheme, hAuthority, hTarget⟩
    rw [hr] at hAuthority
    exact ⟨hScheme, hAuthority.1, hAuthority.2, hTarget⟩
  · rintro ⟨hScheme, hHost, hPort, hTarget⟩
    refine ⟨hScheme, ?_, hTarget⟩
    rw [hr]
    exact ⟨hHost, hPort⟩

/-- The base's path up to its last `/`. -/
def directory (path : Text) : Text := (writtenPath path).rdropWhile (· ≠ '/')

theorem directory_cases (h : IsPath path) :
    ∃ d, directory path = d ++ ['/'] ∧ (∃ s, directory path = '/' :: s) ∧ '?' ∉ directory path ∧
      '#' ∉ directory path := by
  obtain ⟨t, ht⟩ := writtenPath_cons h
  have hSub : directory path ⊆ writtenPath path := (List.rdropWhile_prefix _ _).subset
  have hCons : directory path = '/' :: t.rdropWhile (· ≠ '/') := by
    unfold directory
    rw [ht, ← List.nil_append ('/' :: t), rdropWhile_append_cons (by decide), List.nil_append]
  have hNe : directory path ≠ [] := by
    rw [hCons]
    exact List.cons_ne_nil _ _
  have hLast : (directory path).getLast hNe = '/' := by
    simpa [directory] using List.rdropWhile_last_not (· ≠ '/') (writtenPath path) hNe
  refine ⟨(directory path).dropLast, ?_, ⟨_, hCons⟩, ?_, ?_⟩
  · rw [← hLast, List.dropLast_append_getLast]
  · intro hMem
    exact h.written.2.1 (hSub hMem)
  · intro hMem
    exact h.written.2.2 (hSub hMem)

theorem mergePaths_eq (base path : Text) : mergePaths base path = directory base ++ path := by
  unfold mergePaths directory writtenPath
  split
  · rfl
  · rfl

theorem directory_eq_iff (path : Text) : directory path = path ↔ path.getLast? = some '/' := by
  unfold directory writtenPath
  cases hPath : path with
  | nil => simp [List.rdropWhile_singleton]
  | cons c s =>
    rw [List.isEmpty_cons, if_neg Bool.false_ne_true, List.rdropWhile_eq_self_iff]
    simp [List.getLast?_eq_some_getLast]

/-! ## The target of every reference -/

theorem resolves_network (hBase : base.Parsed) (hTrim : Text.trimRight loc = loc)
    (hLoc : loc = '/' :: '/' :: s) :
    (∃ v, parse (base.scheme ++ ':' :: loc) = some v ∧ IsTarget base (referenceOf loc) v) ↔
      ∃ host port, hostPort (userinfo (parts s).authority).2 = some (host, port) ∧ host ≠ [] ∧
        (portOf base.scheme port).isSome := by
  have hRest : Text.trimRight s = s := by
    rw [hLoc, ← List.nil_append ('/' :: '/' :: s), ← List.singleton_append, ← List.append_assoc,
      trimRight_append_cons (by decide), List.nil_append] at hTrim
    exact (List.cons.inj (List.cons.inj hTrim).2).2
  have hParse : parse (base.scheme ++ ':' :: loc) = parseParts base.scheme (parts s) := by
    apply parse_written hBase.scheme
    · have hEq : base.scheme ++ ':' :: loc = (base.scheme ++ [':', '/']) ++ '/' :: s := by simp [hLoc]
      rw [hEq, trimRight_append_cons (by decide), hRest]
      simp
    · exact ⟨_, rfl⟩
  have hTarget : targetOf base ⟨some (parts s).authority, (parts s).path, queryOf s⟩ =
      ((parts s).path, (parts s).query) := by
    unfold targetOf
    dsimp only
    rw [if_pos (Or.inl (Option.isSome_some)), parts_eq_reference]
  rw [hParse, hLoc, referenceOf_network]
  constructor
  · rintro ⟨v, hv, -⟩
    obtain ⟨host, port, hHost, hNe, hPort, -⟩ := parseParts_eq_some.mp hv
    exact ⟨host, port, hHost, hNe, by rw [hPort]; rfl⟩
  · rintro ⟨host, port, hHost, hNe, hPort⟩
    obtain ⟨r, hr⟩ := Option.isSome_iff_exists.mp hPort
    refine ⟨⟨base.scheme, decode false (userinfo (parts s).authority).1.1,
      decode false (userinfo (parts s).authority).1.2, Text.lower host, r.1, r.2, (parts s).path,
      (parts s).query, (parts s).fragment⟩, ?_, ?_⟩
    · apply parseParts_eq_some.mpr
      exact ⟨host, port, hHost, hNe, hr, rfl, rfl, rfl, rfl, rfl, rfl, rfl⟩
    · exact ⟨rfl, ⟨host, port, hHost, rfl, hr⟩, hTarget.symm⟩

theorem resolves_behind (hBase : base.Parsed) (hTrim : Text.trimRight t = t) (hHead : ∃ s, beforeQuery t = '/' :: s)
    {r : Reference} (hr : r.authority = none) :
    (∃ v, parse (base.scheme ++ "://".toList ++ base.hostAndPort ++ t) = some v ∧ IsTarget base r v) ↔
      HostSound base.host ∧ (beforeQuery t, (queryOf t).getD []) = targetOf base r := by
  rw [parse_behind hBase hTrim hHead]
  have hAll := parse_behind_host hBase
    (p := ⟨base.hostAndPort, beforeQuery t, (queryOf t).getD [], (beforeAfter '#' t).2⟩) rfl
    (targetOf base r).1 (targetOf base r).2
  simp only [isTarget_none hr]
  rw [hAll, Prod.ext_iff]

theorem targetOf_path {r : Reference} (hr : r.authority = none) (hPath : Text.startsWith r.path ['/'] = false) :
    (directory base.path ++ r.path, r.query.getD []) = targetOf base r ↔
      (r.path = [] → base.path.getLast? = some '/' ∧ (r.query = none → base.query = [])) := by
  unfold targetOf
  rw [if_neg (by simp [hr, hPath])]
  cases hEq : r.path with
  | nil =>
    have hQuery : r.query.getD [] = r.query.getD base.query ↔ (r.query = none → base.query = []) := by
      cases r.query with
      | none => simp [eq_comm]
      | some q => simp
    rw [List.isEmpty_nil, if_pos rfl, List.append_nil, Prod.ext_iff, directory_eq_iff]
    dsimp only
    rw [hQuery]
    exact ⟨fun h _ => h, fun h => h rfl⟩
  | cons c u =>
    rw [List.isEmpty_cons, if_neg Bool.false_ne_true, mergePaths_eq]
    simp

/-- `Resolve` gives the target of a text, read as a relative reference, exactly if the reference is of that
kind. -/
theorem resolve_iff {url location : Text} {base : URLInfo} (h : parse url = some base) :
    (∃ v, parse (resolve base location) = some v ∧ IsTarget base (referenceOf (Text.trim location)) v) ↔
      Resolvable base location := by
  have hBase := parsed_of_parse h
  have hTrim := trimRight_trim location
  have hAgain := Text.trim_trim location
  unfold resolve Resolvable
  generalize Text.trim location = loc at hTrim hAgain
  dsimp only
  by_cases hInfix : "://".toList <:+: loc
  · rw [if_pos (cutAt_isSome hInfix)]
    constructor
    · rintro ⟨v, hv, hTarget⟩
      exact absurd hTarget (not_target_of_parse hAgain hv)
    · rintro ⟨hNot, -⟩
      exact absurd hInfix hNot
  · rw [cutAt_none hInfix, if_neg (by decide), and_iff_right hInfix]
    by_cases hNetwork : Text.startsWith loc "//".toList = true
    · obtain ⟨s, hs⟩ : ∃ s, loc = '/' :: '/' :: s := by
        obtain ⟨s, hs⟩ := List.isPrefixOf_iff_prefix.mp hNetwork
        exact ⟨s, hs.symm⟩
      rw [if_pos hNetwork, resolves_network hBase hTrim hs, hs, referenceOf_network]
    · have hPath : referenceOf loc = ⟨none, beforeQuery loc, queryOf loc⟩ :=
        referenceOf_path (by simpa using hNetwork)
      rw [if_neg hNetwork, hPath]
      dsimp only
      by_cases hSlash : Text.startsWith loc "/".toList = true
      · obtain ⟨s, hs⟩ : ∃ s, loc = '/' :: s := by
          obtain ⟨s, hs⟩ := List.isPrefixOf_iff_prefix.mp hSlash
          exact ⟨s, hs.symm⟩
        have hHead : beforeQuery loc = '/' :: beforeQuery s := by
          rw [hs]
          exact beforeQuery_append (x := ['/']) (by decide) (by decide) s
        rw [if_pos hSlash, resolves_behind hBase hTrim ⟨_, hHead⟩ rfl]
        unfold targetOf
        dsimp only
        rw [if_pos (Or.inr (by rw [hHead]; rfl)), hHead]
        simp
      · obtain ⟨d, hLast, ⟨s, hs⟩, hMark, hHash⟩ := directory_cases hBase.path
        have hText : base.scheme ++ "://".toList ++ base.hostAndPort ++ directory base.path ++ loc =
            base.scheme ++ "://".toList ++ base.hostAndPort ++ (directory base.path ++ loc) := List.append_assoc ..
        have hEnd : Text.trimRight (directory base.path ++ loc) = directory base.path ++ loc := by
          rw [hLast, List.append_assoc, List.singleton_append, trimRight_append_cons (by decide), hTrim]
        have hBefore := beforeQuery_append hHash hMark loc
        have hRelative : Text.startsWith (beforeQuery loc) ['/'] = false := by
          by_contra hStart
          have hPrefix := List.isPrefixOf_iff_prefix.mp (Bool.not_eq_false _ ▸ hStart)
          exact hSlash (List.isPrefixOf_iff_prefix.mpr (hPrefix.trans (isPrefix_beforeQuery loc)))
        rw [if_neg hSlash]
        change (∃ v, parse (base.scheme ++ "://".toList ++ base.hostAndPort ++ directory base.path ++ loc) = some v ∧ _) ↔ _
        rw [hText, resolves_behind hBase hEnd ⟨s ++ beforeQuery loc, by rw [hBefore, hs]; rfl⟩ rfl, hBefore,
          queryOf_append hHash hMark]
        exact and_congr_right fun _ => targetOf_path (r := ⟨none, beforeQuery loc, queryOf loc⟩) rfl hRelative

/-- The request that the samples are relative to. -/
def sampleBase : URLInfo := ⟨"http".toList, [], [], "h".toList, 80, false, "/a/b".toList, "q".toList, []⟩

theorem resolve_iff_sample :
    ∃ v, parse (resolve sampleBase "c:d?x@y".toList) = some v ∧
      IsTarget sampleBase (referenceOf (Text.trim "c:d?x@y".toList)) v := by
  have hBase : parse "http://h/a/b?q".toList = some sampleBase := by decide +kernel
  apply (resolve_iff hBase).mpr
  have hReference : referenceOf (Text.trim "c:d?x@y".toList) = ⟨none, "c:d".toList, some "x@y".toList⟩ := by
    decide +kernel
  unfold Resolvable
  rw [hReference]
  refine ⟨by decide +kernel, ⟨by decide, ?_⟩, nofun⟩
  intro s hs
  cases hs

/-- A query alone replaces the last segment of the path, and one that holds a URL is taken for the whole. -/
theorem resolve_misses :
    parse "http://h/a/b?q".toList = some sampleBase ∧
      targetOf sampleBase (referenceOf "?x".toList) = ("/a/b".toList, "x".toList) ∧
      (parse (resolve sampleBase "?x".toList)).map (fun v => (v.path, v.query)) = some ("/a/".toList, "x".toList) ∧
      targetOf sampleBase (referenceOf "/c?u=http://x".toList) = ("/c".toList, "u=http://x".toList) ∧
      parse (resolve sampleBase "/c?u=http://x".toList) = none := by
  decide +kernel

end URL

end DataReel
