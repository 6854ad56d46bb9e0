import DataReel.Net.HttpText
import DataReel.Net.Stream

/-! # A message read off a stream

What the readers make of a text that is still to come is a function of the text.
-/

namespace DataReel

open Program

namespace HttpMessage

variable {env : Environment NetAnswer} {c : Nat} {R : Source env c}
  {D : Dialogue NetAnswer TlsConnection} {E : Dialogue NetAnswer TlsConnection → Prop} {rest : Text}

section Headers

/-- The headers that lines give after `total` bytes of them. -/
def parseHeaders (headers : List (Text × Text)) (total : Nat) :
    List Text → Option (List (Text × Text))
  | [] => some headers
  | line :: lines =>
    if line.length < 16384 ∧ total + line.length ≤ 256 * 1024 ∧ headers.length ≤ 200 then
      (addLine headers line).bind fun headers => parseHeaders headers (total + line.length) lines
    else
      none

/-- The header lines are read up to the empty line. The turns outnumber the bytes that may be
left. -/
theorem readHeaders_ends (hWhole : ∀ D, ¬ R.CutOff D) {lines : List Text}
    (hLines : ∀ line ∈ lines, '\n' ∉ line ∧ line ≠ []) {headers : List (Text × Text)}
    {total n : Nat} (hTotal : total ≤ 256 * 1024) (hn : 262146 ≤ n + total)
    (hD : R.Unread (lines.flatMap (· ++ Text.crlf) ++ Text.crlf ++ rest) D) :
    Ends (readHeaders env c headers total n) D
      (fun a t => a = parseHeaders headers total lines ∧ (a.isSome → R.Unread rest t)) E := by
  induction lines generalizing headers total n D with
  | nil =>
    obtain ⟨m, rfl⟩ : ∃ m, n = m + 1 := ⟨n - 1, by omega⟩
    unfold readHeaders
    rw [ends_bind]
    have hBreak : '\n' ∉ ([] : Text) := List.not_mem_nil
    refine (Source.readLine_crlf hBreak _ hD).mono
      (fun a t ht => ?_) fun _ => id
    obtain ⟨rfl, hUnread⟩ := ht.resolve_left fun h => hWhole t h.1
    exact ⟨rfl, fun _ => hUnread⟩
  | cons line lines ih =>
    obtain ⟨m, rfl⟩ : ∃ m, n = m + 1 := ⟨n - 1, by omega⟩
    obtain ⟨hBreak, hEmpty⟩ := hLines line List.mem_cons_self
    have hWire : (line :: lines).flatMap (· ++ Text.crlf) ++ Text.crlf ++ rest =
        line ++ Text.crlf ++ (lines.flatMap (· ++ Text.crlf) ++ Text.crlf ++ rest) := by simp
    rw [hWire] at hD
    unfold readHeaders
    rw [ends_bind]
    refine (Source.readLine_crlf hBreak _ hD).mono (fun a t ht => ?_) fun _ => id
    replace ht := ht.resolve_left fun h => hWhole t h.1
    unfold parseHeaders
    by_cases hShort : line.length < 16384
    · rw [if_pos hShort] at ht
      obtain ⟨rfl, hUnread⟩ := ht
      dsimp only
      rw [if_neg (by simpa using hEmpty)]
      by_cases hFits : total + line.length ≤ 256 * 1024 ∧ headers.length ≤ 200
      · rw [if_neg (by omega), if_pos ⟨hShort, hFits⟩]
        have hPos : 0 < line.length := List.length_pos_iff.mpr hEmpty
        cases addLine headers line with
        | none => exact ⟨rfl, nofun⟩
        | some headers =>
          exact ih (fun l hl => hLines l (List.mem_cons_of_mem line hl)) hFits.1 (by omega) hUnread
      · rw [if_pos (by omega), if_neg (by tauto)]
        exact ⟨rfl, nofun⟩
    · rw [if_neg hShort] at ht
      subst ht
      rw [if_neg (by tauto)]
      exact ⟨rfl, nofun⟩

/-- The reader takes the line of the header for this very header. -/
structure HeaderFits (h : Text × Text) : Prop where
  named : h.1 ≠ []
  colon : ':' ∉ h.1
  nameTrimmed : Text.trim h.1 = h.1
  valueTrimmed : Text.trim h.2 = h.2
  short : (headerLine h).length < 16384

theorem headerLine_cons {h : Text × Text} : headerLine h = h.1 ++ ':' :: ' ' :: h.2 := by
  simp [headerLine]

theorem addLine_headerLine {h : Text × Text} (hFits : HeaderFits h) (headers : List (Text × Text)) :
    addLine headers (headerLine h) = some (headers ++ [h]) := by
  obtain ⟨name, value⟩ := h
  obtain ⟨ch, s, rfl⟩ := List.exists_cons_of_ne_nil hFits.named
  have hColon : ':' ∉ ch :: s := hFits.colon
  have hSpace : Text.isSpace ch = false := Text.not_isSpace_of_trim hFits.nameTrimmed
  have hTake : (ch :: s).takeWhile (· ≠ ':') = ch :: s :=
    List.takeWhile_eq_self_iff.mpr fun d hd => by
      simpa using fun h : d = ':' => hColon (h ▸ hd)
  have hBlank : ch ≠ ' ' ∧ ch ≠ '\t' ∧ ch ≠ ':' := by
    refine ⟨?_, ?_, fun h => hColon (h ▸ List.mem_cons_self)⟩ <;> (rintro rfl; exact nomatch hSpace)
  unfold addLine
  rw [headerLine_cons, List.takeWhile_append, List.dropWhile_append, hTake]
  have hDrop : (ch :: s).dropWhile (· ≠ ':') = [] :=
    List.dropWhile_eq_nil_iff.mpr fun d hd => by simpa using fun h : d = ':' => hColon (h ▸ hd)
  rw [hDrop, if_neg (by simp [hBlank]), if_pos (by simp [hBlank])]
  have hName := hFits.nameTrimmed
  have hValue := hFits.valueTrimmed
  simp [Text.trim_blank, hName, hValue]

theorem length_addLine {headers headers' : List (Text × Text)} {line : Text}
    (h : addLine headers line = some headers') : headers'.length ≤ headers.length + 1 := by
  unfold addLine fold at h
  split at h
  · obtain ⟨last, hLast, rfl⟩ := Option.map_eq_some_iff.mp h
    simp
  · split at h
    · obtain rfl := Option.some.inj h
      simp
    · exact nomatch h

theorem length_parseHeaders {headers result : List (Text × Text)} {total : Nat} {lines : List Text}
    (h : parseHeaders headers total lines = some result) :
    result.length ≤ headers.length + lines.length := by
  induction lines generalizing headers total with
  | nil =>
    obtain rfl := Option.some.inj h
    simp
  | cons line lines ih =>
    unfold parseHeaders at h
    split at h
    · obtain ⟨headers', hLine, hRest⟩ := Option.bind_eq_some_iff.mp h
      have hFirst := length_addLine hLine
      have hLast := ih hRest
      rw [List.length_cons]
      omega
    · exact nomatch h

/-- A line that adds a header is its name, a colon and its value. -/
theorem addLine_grows {headers headers' : List (Text × Text)} {line : Text}
    (h : addLine headers line = some headers') (hGrows : headers.length < headers'.length) :
    line.head? ≠ some ':' ∧ headers' = headers ++ [(Text.trim (line.takeWhile (· ≠ ':')),
      Text.trim ((line.dropWhile (· ≠ ':')).drop 1))] := by
  unfold addLine fold at h
  split at h
  · obtain ⟨last, hLast, rfl⟩ := Option.map_eq_some_iff.mp h
    have hPos := List.length_pos_iff.mpr (List.ne_nil_of_mem (List.mem_of_getLast? hLast))
    simp at hGrows
    omega
  · split at h
    · next hColon => exact ⟨hColon.2, (Option.some.inj h).symm⟩
    · exact nomatch h

/-- Where every line gives a header, those read first stay. -/
theorem prefix_parseHeaders {headers result : List (Text × Text)} {total : Nat} {lines : List Text}
    (h : parseHeaders headers total lines = some result)
    (hLength : result.length = headers.length + lines.length) : headers <+: result := by
  induction lines generalizing headers total with
  | nil =>
    obtain rfl := Option.some.inj h
    exact List.prefix_rfl
  | cons line lines ih =>
    unfold parseHeaders at h
    split at h
    · obtain ⟨headers', hLine, hRest⟩ := Option.bind_eq_some_iff.mp h
      have hFirst := length_addLine hLine
      have hLast := length_parseHeaders hRest
      rw [List.length_cons] at hLength
      obtain ⟨-, rfl⟩ := addLine_grows hLine (by omega)
      exact (List.prefix_append _ _).trans (ih hRest (by simp; omega))
    · exact nomatch h

theorem headerFits_of_addLine {headers : List (Text × Text)} {h : Text × Text}
    (hShort : (headerLine h).length < 16384)
    (hLine : addLine headers (headerLine h) = some (headers ++ [h])) : HeaderFits h := by
  obtain ⟨name, value⟩ := h
  obtain ⟨hHead, hEq⟩ := addLine_grows hLine (by simp)
  obtain ⟨hName, hValue⟩ := Prod.mk.inj (List.cons.inj (List.append_cancel_left hEq)).1
  rw [headerLine_cons] at hHead
  refine ⟨?_, ?_, ?_, ?_, hShort⟩
  · rintro (rfl : name = [])
    exact hHead rfl
  · intro hColon
    dsimp only at hColon
    rw [hName] at hColon
    have hMem := List.mem_takeWhile_imp ((Text.isInfix_trim _).subset hColon)
    exact absurd hMem (by decide)
  · rw [hName]
    exact Text.trim_trim _
  · rw [hValue]
    exact Text.trim_trim _

/-- Headers are read as they were written if and only if each fits and there are not too many. -/
theorem parseHeaders_iff {headers hs : List (Text × Text)} {total : Nat}
    (hCount : headers.length ≤ 201) (hTotal : total ≤ 256 * 1024) :
    parseHeaders headers total (hs.map headerLine) = some (headers ++ hs) ↔
      (∀ h ∈ hs, HeaderFits h) ∧ headers.length + hs.length ≤ 201 ∧
        total + (hs.map fun h => (headerLine h).length).sum ≤ 256 * 1024 := by
  induction hs generalizing headers total with
  | nil => simpa [parseHeaders] using ⟨hCount, hTotal⟩
  | cons h hs ih =>
    rw [List.map_cons, parseHeaders, List.map_cons, List.sum_cons, List.length_cons, List.forall_mem_cons]
    have hEq : headers ++ h :: hs = headers ++ [h] ++ hs := by simp
    constructor
    · intro hParse
      split at hParse
      · next hLimits =>
        obtain ⟨headers', hLine, hRest⟩ := Option.bind_eq_some_iff.mp hParse
        have hFirst := length_addLine hLine
        have hLast := length_parseHeaders hRest
        simp only [List.length_append, List.length_cons, List.length_map] at hLast
        have hPrefix := prefix_parseHeaders hRest (by simp; omega)
        obtain ⟨-, rfl⟩ := addLine_grows hLine (by omega)
        rw [hEq] at hPrefix hRest
        have hSame := List.prefix_of_prefix_length_le hPrefix (List.prefix_append _ hs) (by simp)
        have hNew := hSame.eq_of_length (by simp)
        rw [hNew] at hLine hRest
        obtain ⟨hFits, hCounts, hTotals⟩ := (ih (by simp; omega) hLimits.2.1).mp hRest
        rw [List.length_append, List.length_singleton] at hCounts
        exact ⟨⟨headerFits_of_addLine hLimits.1 hLine, hFits⟩, by omega, by omega⟩
      · exact nomatch hParse
    · rintro ⟨⟨hFirst, hFits⟩, hCounts, hTotals⟩
      rw [if_pos ⟨hFirst.short, by omega, by omega⟩, addLine_headerLine hFirst, Option.bind_some, hEq]
      exact (ih (by simp; omega) (by omega)).mpr ⟨hFits, by simp; omega, by omega⟩

end Headers

section Bodies

theorem readAll_ends (hWhole : ∀ D, ¬ R.CutOff D) (maxLen : Option Nat) (n : Nat)
    (hD : R.Unread rest D) :
    Ends (TlsConnection.readAll env c maxLen n) D (fun a _ => ∀ b, a = some b → b = rest)
      fun _ => True := by
  induction n generalizing D with
  | zero => trivial
  | succ n ih =>
    unfold TlsConnection.readAll
    rw [ends_bind, ends_read, ends_ite]
    refine ⟨fun _ => nofun, fun _ => ?_⟩
    rw [ends_bind]
    refine (Source.fill_ends hD).mono (fun rv t ht => ?_) fun _ => id
    rw [ends_ite, ends_ite]
    rcases ht with ⟨hrv, hBuf, u, hEnded, hu⟩ | ⟨hrv, hUnread, -⟩
    · refine ⟨fun _ b hb => ?_, fun hZero => ⟨fun _ => nofun, fun hPos => by omega⟩⟩
      obtain rfl := Option.some.inj hb
      obtain rfl : u = [] := by
        by_contra hu
        exact hWhole t ⟨u, hu, hEnded⟩
      rw [hBuf, ← hu, List.append_nil]
    · exact ⟨fun h => by omega, fun _ => ⟨fun h => by omega, fun _ => ih hUnread⟩⟩

end Bodies

end HttpMessage

end DataReel
