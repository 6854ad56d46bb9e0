import DataReel.Net.HttpRead
import DataReel.Net.WholeStream

/-! # The framing of a body

A body in chunks is cut into lines and blocks by one grammar for what the reader takes and one for what RFC 9112
allows.
-/

namespace DataReel

open Program

namespace Text

/-- The number that digits write. -/
def numberIn (base : Nat) (s : Text) : Nat := s.foldl (fun n c => base * n + digitValue c) 0

structure IsDigits (base : Nat) (s : Text) : Prop where
  ne : s ≠ []
  digit : ∀ c ∈ s, digitValue c < base

variable {base : Nat} {s : Text} {c d : Char}

theorem IsDigits.not_mem (h : IsDigits base s) (hc : base ≤ digitValue c) : c ∉ s := by
  intro hMem
  have := h.digit c hMem
  omega

theorem IsDigits.head (h : IsDigits base s) : ∃ c t, s = c :: t ∧ digitValue c < base := by
  cases hs : s with
  | nil => exact absurd hs h.ne
  | cons c t => exact ⟨c, t, rfl, h.digit c (by rw [hs]; exact List.mem_cons_self)⟩

theorem not_isSpace_of_digit (h : digitValue c < 16) : isSpace c = false := by
  by_contra hSpace
  have hSpace : isSpace c = true := by simpa using hSpace
  unfold isSpace at hSpace
  simp only [Bool.or_eq_true, decide_eq_true_eq] at hSpace
  rcases hSpace with ((((rfl | rfl) | rfl) | rfl) | rfl) | rfl <;> revert h <;> decide

/-- Digits are read to their end, up to the largest number of 64 bits. -/
theorem wholeNumber_digits (h : IsDigits base s) (hBase : base ≤ 16) :
    wholeNumber base s = some (if 2 ^ 64 ≤ numberIn base s then 2 ^ 64 - 1 else numberIn base s) := by
  have hNot (d : Char) (hd : digitValue d = 16) : d ∉ s := h.not_mem (by omega)
  obtain ⟨c, t, hs, hc⟩ := h.head
  have hNul : s.takeWhile (· ≠ '\x00') = s := by
    apply List.takeWhile_eq_self_iff.mpr
    intro d hd
    exact decide_eq_true fun hEq => hNot '\x00' (by decide) (hEq ▸ hd)
  have hTrim : trimLeft s = s := by
    rw [hs]
    exact trimLeft_cons_of_not_isSpace (not_isSpace_of_digit (by omega))
  have hSign : sign s = (false, s) := by
    unfold sign
    split
    · exact absurd List.mem_cons_self (hNot '-' (by decide))
    · exact absurd List.mem_cons_self (hNot '+' (by decide))
    · rfl
  have hPrefix : dropHexPrefix base s = s := by
    unfold dropHexPrefix
    split
    · next x d t =>
      rw [if_neg]
      rintro ⟨-, rfl | rfl, -⟩
      · exact hNot 'x' (by decide) (by simp)
      · exact hNot 'X' (by decide) (by simp)
    · rfl
  have hTake : s.takeWhile (fun c => digitValue c < base) = s :=
    List.takeWhile_eq_self_iff.mpr fun d hd => decide_eq_true (h.digit d hd)
  have hDrop : s.dropWhile (fun c => digitValue c < base) = [] :=
    List.dropWhile_eq_nil_iff.mpr fun d hd => decide_eq_true (h.digit d hd)
  have hEmpty : s.isEmpty = false := by simpa using h.ne
  have hValue : s.foldl (fun n c => base * n + digitValue c) 0 = numberIn base s := rfl
  unfold wholeNumber strtoull digitsValue
  rw [hNul, hTrim, hSign]
  dsimp only
  rw [hPrefix, hTake, hDrop, hEmpty, hValue, if_neg Bool.false_ne_true, if_neg Bool.false_ne_true]
  split <;> rfl

theorem wholeNumber_small (h : IsDigits base s) (hBase : base ≤ 16) {n : Nat} (hn : numberIn base s = n)
    (hSmall : n < 2 ^ 64) : wholeNumber base s = some n := by
  rw [wholeNumber_digits h hBase, hn, if_neg (by omega)]

end Text

namespace HttpMessage

/-! ## Framings -/

/-- A chunk with the lines around it, which a line feed each ends. -/
structure Chunk where
  line : Text
  data : Text
  stop : Text
  deriving DecidableEq

structure Framing where
  chunks : List Chunk
  last : Text
  trailers : List Text
  final : Text

def chunksText (cs : List Chunk) : Text :=
  cs.flatMap fun c => c.line ++ '\n' :: (c.data ++ (c.stop ++ ['\n']))

def chunksData (cs : List Chunk) : Text := cs.flatMap Chunk.data

def linesText (ls : List Text) : Text := ls.flatMap (· ++ ['\n'])

def Framing.text (f : Framing) : Text :=
  chunksText f.chunks ++ f.last ++ '\n' :: (linesText f.trailers ++ (f.final ++ ['\n']))

def Framing.body (f : Framing) : Text := chunksData f.chunks

/-- What is taken for the line of a chunk with its size, for a chunk's length after those before it, for the end of
a chunk, for a trailer and for the end of the trailers. -/
structure Grammar where
  size : Text → Nat → Prop
  fits : Nat → Nat → Prop
  stop : Text → Prop
  trailer : Text → Prop
  final : Text → Prop

namespace Grammar

variable (G : Grammar)

structure ReadsChunk (before : Nat) (c : Chunk) : Prop where
  line : '\n' ∉ c.line
  size : G.size c.line c.data.length
  data : c.data ≠ []
  fits : G.fits before c.data.length
  unbroken : '\n' ∉ c.stop
  stop : G.stop c.stop

def ReadsChunks : Nat → List Chunk → Prop
  | _, [] => True
  | before, c :: cs => G.ReadsChunk before c ∧ ReadsChunks (before + c.data.length) cs

def ReadsLast (line : Text) : Prop := '\n' ∉ line ∧ G.size line 0

structure ReadsTrailers (ls : List Text) (final : Text) : Prop where
  trailers : ∀ l ∈ ls, '\n' ∉ l ∧ G.trailer l
  unbroken : '\n' ∉ final
  final : G.final final

structure Reads (f : Framing) : Prop where
  chunks : G.ReadsChunks 0 f.chunks
  last : G.ReadsLast f.last
  trailers : G.ReadsTrailers f.trailers f.final

end Grammar

/-- What `read_body` takes. -/
def readerGrammar (maxBody : Nat) : Grammar where
  size line n := line.length ≤ 1024 ∧ chunkSize (TlsConnection.stripReturn line) = some n
  fits before n := n ≤ maxBody ∧ (before + n) % 2 ^ 64 ≤ maxBody
  stop line := line.length ≤ 2 ∧ TlsConnection.stripReturn line = []
  trailer line := line.length ≤ 16384 ∧ TlsConnection.stripReturn line ≠ []
  final line := line.length ≤ 16384 ∧ TlsConnection.stripReturn line = []

/-- The extension of a chunk, after blanks. -/
def IsExtension (ext : Text) : Prop :=
  ext = [] ∨ ∃ blanks e, ext = blanks ++ ';' :: e ∧ (∀ c ∈ blanks, c = ' ' ∨ c = '\t') ∧ '\r' ∉ e

/-- One or more hexadecimal digits with an optional extension. -/
def HasSize (line : Text) (n : Nat) : Prop :=
  ∃ hex ext, line = hex ++ ext ++ ['\r'] ∧ Text.IsDigits 16 hex ∧ IsExtension ext ∧ Text.numberIn 16 hex = n

/-- What RFC 9112 allows for a body of up to `maxBody` bytes. -/
def rfcGrammar (maxBody : Nat) : Grammar where
  size := HasSize
  fits before n := before + n ≤ maxBody
  stop line := line = ['\r']
  trailer line := ∃ l, line = l ++ ['\r'] ∧ l ≠ []
  final line := line = ['\r']

/-! ## The reader -/

/-- The chunks of a text after `body`, and what follows the last. -/
def parseChunks (maxBody : Nat) : Nat → Text → Text → Option (Text × Text)
  | 0, _, _ => none
  | n + 1, body, w =>
    match Source.nextLine 1024 w with
    | none => none
    | some (line, rest) =>
      match chunkSize line with
      | none => none
      | some k =>
        if k = 0 then some (body, rest)
        else if maxBody < k ∨ maxBody < (body.length + k) % 2 ^ 64 then none
        else if !sameInt (rest.take k).length k then none
        else
          match Source.nextLine 2 (rest.drop k) with
          | some ([], rest') => parseChunks maxBody n (body ++ rest.take k) rest'
          | _ => none

def parseTrailers : Nat → Text → Option Text
  | 0, _ => none
  | n + 1, w =>
    match Source.nextLine 16384 w with
    | none => none
    | some (line, rest) => if line.isEmpty then some rest else parseTrailers n rest

section Run

variable {env : Environment NetAnswer} {c : Nat} {R : Source env c} {D : Dialogue NetAnswer TlsConnection}
  {E : Dialogue NetAnswer TlsConnection → Prop} {maxBody turns : Nat} {w body : Text}

theorem nextLine_length {maxLen : Nat} {r : Text × Text} (h : Source.nextLine maxLen w = some r) :
    r.2.length < w.length := by
  obtain ⟨⟨line, rest⟩, hCut, hLine⟩ := Option.bind_eq_some_iff.mp h
  dsimp only at hLine
  split at hLine
  · cases hLine
    rw [(eq_of_cut hCut).1]
    simp
    omega
  · cases hLine

theorem readChunks_left (hR : R.Final) (hD : R.Left w D) (hTurns : w.length < turns) :
    Ends (readChunks env c maxBody body turns) D (fun a t =>
      a = (parseChunks maxBody turns body w).map Prod.fst ∧
        ∀ r ∈ parseChunks maxBody turns body w, R.Left r.2 t) E := by
  induction turns generalizing body w D with
  | zero => omega
  | succ n ih =>
    unfold readChunks parseChunks
    rw [ends_bind]
    apply (Source.readLine_left hR 1024 hD).imp
    rintro a t ⟨rfl, hLeft⟩
    cases hLine : Source.nextLine 1024 w with
    | none => exact ⟨rfl, nofun⟩
    | some r =>
      obtain ⟨line, rest⟩ := r
      have hRest : R.Left rest t := hLeft (line, rest) hLine
      have hShort := nextLine_length hLine
      rw [Option.map_some]
      dsimp only
      cases chunkSize line with
      | none => exact ⟨rfl, nofun⟩
      | some k =>
        dsimp only
        rw [ends_ite]
        constructor
        · intro hZero
          rw [if_pos hZero]
          exact ⟨rfl, by rintro r ⟨⟩; exact hRest⟩
        · intro hPos
          rw [if_neg hPos, ends_ite]
          constructor
          · intro hLong
            rw [if_pos hLong]
            exact ⟨rfl, nofun⟩
          · intro hFits
            rw [if_neg hFits, ends_bind]
            apply (Source.readBytes_left hR k hRest).imp
            rintro chunk u ⟨rfl, hDrop⟩
            rw [ends_ite]
            constructor
            · intro hOther
              rw [if_pos hOther]
              exact ⟨rfl, nofun⟩
            · intro hSame
              rw [if_neg hSame, ends_bind]
              apply (Source.readLine_left hR 2 hDrop).imp
              rintro a u' ⟨rfl, hLeft'⟩
              rw [ends_ite]
              cases hStop : Source.nextLine 2 (rest.drop k) with
              | none => exact ⟨nofun, fun _ => ⟨rfl, nofun⟩⟩
              | some r' =>
                obtain ⟨stop, rest'⟩ := r'
                have hShort' := nextLine_length hStop
                rw [List.length_drop] at hShort'
                dsimp only at hShort hShort'
                cases stop with
                | nil =>
                  constructor
                  · intro _
                    exact ih (hLeft' ([], rest') hStop) (by omega)
                  · intro hNot
                    exact absurd rfl hNot
                | cons ch stop =>
                  constructor
                  · intro hEmpty
                    cases hEmpty
                  · intro _
                    exact ⟨rfl, nofun⟩

theorem readTrailers_left (hR : R.Final) (hD : R.Left w D) (hTurns : w.length < turns) :
    Ends (readTrailers env c turns) D (fun a t =>
      a = (parseTrailers turns w).isSome ∧ ∀ rest ∈ parseTrailers turns w, R.Left rest t) E := by
  induction turns generalizing w D with
  | zero => omega
  | succ n ih =>
    unfold readTrailers parseTrailers
    rw [ends_bind]
    apply (Source.readLine_left hR 16384 hD).imp
    rintro a t ⟨rfl, hLeft⟩
    cases hLine : Source.nextLine 16384 w with
    | none => exact ⟨rfl, nofun⟩
    | some r =>
      obtain ⟨line, rest⟩ := r
      have hShort := nextLine_length hLine
      dsimp only at hShort
      rw [Option.map_some]
      dsimp only
      rw [ends_ite]
      constructor
      · intro hEmpty
        rw [if_pos hEmpty]
        exact ⟨rfl, by rintro r ⟨⟩; exact hLeft (line, rest) hLine⟩
      · intro hMore
        rw [if_neg hMore]
        exact ih (hLeft (line, rest) hLine) (by omega)

end Run

/-! ## What the reader takes -/

section Taken

variable {maxBody n : Nat} {w b rest body line : Text} {cs : List Chunk}

theorem nextLine_eq_some {maxLen : Nat} : Source.nextLine maxLen w = some (line, rest) ↔
    ∃ raw, w = raw ++ '\n' :: rest ∧ '\n' ∉ raw ∧ raw.length ≤ maxLen ∧ TlsConnection.stripReturn raw = line := by
  constructor
  · intro h
    obtain ⟨⟨raw, rest'⟩, hCut, hLine⟩ := Option.bind_eq_some_iff.mp h
    dsimp only at hLine
    split at hLine
    · next hShort =>
      cases hLine
      obtain ⟨hEq, hRaw⟩ := eq_of_cut hCut
      exact ⟨raw, hEq, hRaw, hShort, rfl⟩
    · cases hLine
  · rintro ⟨raw, rfl, hRaw, hShort, rfl⟩
    rw [Source.nextLine_append hRaw, if_pos hShort]

theorem chunksText_cons (c : Chunk) (cs : List Chunk) :
    chunksText (c :: cs) = c.line ++ '\n' :: (c.data ++ (c.stop ++ '\n' :: chunksText cs)) := by
  rw [chunksText, List.flatMap_cons, ← chunksText]
  simp

theorem chunksData_cons (c : Chunk) (cs : List Chunk) : chunksData (c :: cs) = c.data ++ chunksData cs :=
  List.flatMap_cons

theorem linesText_cons (l : Text) (ls : List Text) : linesText (l :: ls) = l ++ '\n' :: linesText ls := by
  rw [linesText, List.flatMap_cons, ← linesText]
  simp

theorem parseChunks_sound (h : parseChunks maxBody n body w = some (b, rest)) :
    ∃ cs last, w = chunksText cs ++ last ++ '\n' :: rest ∧ (readerGrammar maxBody).ReadsChunks body.length cs ∧
      (readerGrammar maxBody).ReadsLast last ∧ b = body ++ chunksData cs := by
  induction n generalizing body w with
  | zero => cases h
  | succ n ih =>
    unfold parseChunks at h
    split at h
    · cases h
    · next line rest' hLine =>
      obtain ⟨raw, hw, hRaw, hShort, hStrip⟩ := nextLine_eq_some.mp hLine
      split at h
      · cases h
      · next k hSize =>
        split at h
        · next hZero =>
          cases h
          refine ⟨[], raw, hw, trivial, ⟨hRaw, hShort, ?_⟩, (List.append_nil _).symm⟩
          rw [hStrip, hSize, hZero]
        · next hPos =>
          split at h
          · cases h
          · next hFits =>
            split at h
            · cases h
            · split at h
              · next rest'' hStop =>
                obtain ⟨stop, hRest, hUnbroken, hTwo, hEnd⟩ := nextLine_eq_some.mp hStop
                obtain ⟨cs, last, hw', hChunks, hLast, hb⟩ := ih h
                have hLength : (rest'.take k).length = k := by
                  have hDrop := congrArg List.length hRest
                  rw [List.length_drop, List.length_append, List.length_cons] at hDrop
                  rw [List.length_take]
                  omega
                rw [List.length_append, hLength] at hChunks
                refine ⟨⟨raw, rest'.take k, stop⟩ :: cs, last, ?_, ⟨⟨hRaw, ⟨hShort, ?_⟩, ?_, ?_, hUnbroken, hTwo, hEnd⟩, ?_⟩,
                  hLast, ?_⟩
                · have hTail : rest' = rest'.take k ++ (stop ++ '\n' :: (chunksText cs ++ last ++ '\n' :: rest)) := by
                    rw [← hw', ← hRest, List.take_append_drop]
                  calc
                    w = raw ++ '\n' :: (rest'.take k ++ (stop ++ '\n' :: (chunksText cs ++ last ++ '\n' :: rest))) := by
                      rw [hw, ← hTail]
                    _ = _ := by
                      rw [chunksText_cons]
                      simp
                · rw [hStrip, hSize]
                  exact congrArg some hLength.symm
                · intro hNil
                  change rest'.take k = [] at hNil
                  rw [hNil] at hLength
                  exact hPos hLength.symm
                · change (rest'.take k).length ≤ maxBody ∧ (body.length + (rest'.take k).length) % 2 ^ 64 ≤ maxBody
                  rw [hLength]
                  omega
                · dsimp only
                  rw [hLength]
                  exact hChunks
                · rw [hb, chunksData_cons, List.append_assoc]
              · cases h

theorem parseChunks_complete {last : Text} (hw : w = chunksText cs ++ last ++ '\n' :: rest)
    (hChunks : (readerGrammar maxBody).ReadsChunks body.length cs) (hLast : (readerGrammar maxBody).ReadsLast last)
    (hn : w.length < n) : parseChunks maxBody n body w = some (body ++ chunksData cs, rest) := by
  induction cs generalizing body w n with
  | nil =>
    obtain ⟨m, rfl⟩ : ∃ m, n = m + 1 := ⟨n - 1, by omega⟩
    have hLine := nextLine_eq_some.mpr ⟨last, hw, hLast.1, hLast.2.1, rfl⟩
    unfold parseChunks
    rw [hLine]
    dsimp only
    rw [hLast.2.2]
    dsimp only
    rw [if_pos rfl, chunksData, List.flatMap_nil, List.append_nil]
  | cons c cs ih =>
    obtain ⟨m, rfl⟩ : ∃ m, n = m + 1 := ⟨n - 1, by omega⟩
    obtain ⟨hChunk, hRest⟩ := hChunks
    obtain ⟨hSizeShort, hSize⟩ := hChunk.size
    obtain ⟨hMax, hTotal⟩ := hChunk.fits
    have hText : w = c.line ++ '\n' :: (c.data ++ (c.stop ++ '\n' :: (chunksText cs ++ last ++ '\n' :: rest))) := by
      rw [hw, chunksText_cons]
      simp
    have hLine := nextLine_eq_some.mpr ⟨c.line, hText, hChunk.line, hSizeShort, rfl⟩
    have hStop : Source.nextLine 2 (c.stop ++ '\n' :: (chunksText cs ++ last ++ '\n' :: rest)) =
        some ([], chunksText cs ++ last ++ '\n' :: rest) :=
      nextLine_eq_some.mpr ⟨c.stop, rfl, hChunk.unbroken, hChunk.stop.1, hChunk.stop.2⟩
    unfold parseChunks
    rw [hLine]
    dsimp only
    rw [hSize]
    dsimp only
    rw [if_neg (by simpa using hChunk.data), if_neg (by omega), List.take_left, List.drop_left, hStop,
      if_neg (by simp [sameInt])]
    dsimp only
    rw [ih rfl (by rw [List.length_append]; exact hRest), chunksData_cons, List.append_assoc]
    rw [hText] at hn
    simp only [List.length_append, List.length_cons] at hn ⊢
    omega

theorem parseTrailers_sound (maxBody : Nat) (h : parseTrailers n w = some rest) :
    ∃ ls final, w = linesText ls ++ (final ++ '\n' :: rest) ∧ (readerGrammar maxBody).ReadsTrailers ls final := by
  induction n generalizing w with
  | zero => cases h
  | succ n ih =>
    unfold parseTrailers at h
    split at h
    · cases h
    · next line rest' hLine =>
      obtain ⟨raw, hw, hRaw, hShort, hStrip⟩ := nextLine_eq_some.mp hLine
      split at h
      · next hEmpty =>
        cases h
        refine ⟨[], raw, hw, nofun, hRaw, hShort, ?_⟩
        rw [hStrip]
        exact List.isEmpty_iff.mp hEmpty
      · next hMore =>
        obtain ⟨ls, final, hw', hTrailers⟩ := ih h
        refine ⟨raw :: ls, final, ?_, ?_, hTrailers.unbroken, hTrailers.final⟩
        · rw [hw, hw', linesText_cons]
          simp
        · intro l hl
          rcases List.mem_cons.mp hl with rfl | hl
          · refine ⟨hRaw, hShort, ?_⟩
            rw [hStrip]
            simpa using hMore
          · exact hTrailers.trailers l hl

theorem parseTrailers_complete {ls : List Text} {final : Text} (hw : w = linesText ls ++ (final ++ '\n' :: rest))
    (h : (readerGrammar maxBody).ReadsTrailers ls final) (hn : w.length < n) : parseTrailers n w = some rest := by
  induction ls generalizing w n with
  | nil =>
    obtain ⟨m, rfl⟩ : ∃ m, n = m + 1 := ⟨n - 1, by omega⟩
    have hLine := nextLine_eq_some.mpr ⟨final, hw, h.unbroken, h.final.1, h.final.2⟩
    unfold parseTrailers
    rw [hLine]
    rfl
  | cons l ls ih =>
    obtain ⟨m, rfl⟩ : ∃ m, n = m + 1 := ⟨n - 1, by omega⟩
    obtain ⟨hUnbroken, hShort, hNe⟩ := h.trailers l List.mem_cons_self
    have hText : w = l ++ '\n' :: (linesText ls ++ (final ++ '\n' :: rest)) := by
      rw [hw, linesText_cons]
      simp
    have hLine := nextLine_eq_some.mpr ⟨l, hText, hUnbroken, hShort, rfl⟩
    have hRest : (readerGrammar maxBody).ReadsTrailers ls final :=
      ⟨fun l' hl' => h.trailers l' (List.mem_cons_of_mem l hl'), h.unbroken, h.final⟩
    unfold parseTrailers
    rw [hLine]
    dsimp only
    rw [if_neg (by simpa using hNe)]
    apply ih rfl hRest
    rw [hText] at hn
    simp only [List.length_append, List.length_cons] at hn ⊢
    omega

/-- A body in chunks with what follows it. -/
def parseChunked (maxBody turns : Nat) (w : Text) : Option (Text × Text) :=
  (parseChunks maxBody turns [] w).bind fun r => (parseTrailers turns r.2).map fun rest => (r.1, rest)

theorem framing_text (f : Framing) (rest : Text) :
    f.text ++ rest = chunksText f.chunks ++ f.last ++ '\n' :: (linesText f.trailers ++ (f.final ++ '\n' :: rest)) := by
  simp [Framing.text]

theorem parseChunked_iff (hn : w.length < n) : parseChunked maxBody n w = some (b, rest) ↔
    ∃ f, (readerGrammar maxBody).Reads f ∧ w = f.text ++ rest ∧ b = f.body := by
  unfold parseChunked
  constructor
  · intro h
    obtain ⟨⟨b', mid⟩, hChunks, hRest⟩ := Option.bind_eq_some_iff.mp h
    obtain ⟨rest', hTrailers, hEq⟩ := Option.map_eq_some_iff.mp hRest
    cases hEq
    obtain ⟨cs, last, hw, hReads, hLast, hb⟩ := parseChunks_sound hChunks
    obtain ⟨ls, final, hMid, hEnd⟩ := parseTrailers_sound maxBody hTrailers
    refine ⟨⟨cs, last, ls, final⟩, ⟨hReads, hLast, hEnd⟩, ?_, hb⟩
    rw [framing_text, ← hMid, hw]
  · rintro ⟨f, hf, hw, rfl⟩
    have hShort : (linesText f.trailers ++ (f.final ++ '\n' :: rest)).length < n := by
      rw [hw, framing_text, List.length_append, List.length_append, List.length_cons] at hn
      omega
    rw [parseChunks_complete (hw.trans (framing_text f rest)) hf.chunks hf.last hn]
    rw [Option.bind_some, parseTrailers_complete rfl hf.trailers hShort]
    rfl

theorem readChunked_left {env : Environment NetAnswer} {c turns : Nat} {R : Source env c}
    {D : Dialogue NetAnswer TlsConnection} {E : Dialogue NetAnswer TlsConnection → Prop} (hR : R.Final)
    (hD : R.Left w D) (hTurns : w.length < turns) :
    Ends (readChunked env c maxBody turns) D (fun a t =>
      a = (parseChunked maxBody turns w).map Prod.fst ∧
        ∀ r ∈ parseChunked maxBody turns w, R.Left r.2 t) E := by
  unfold readChunked parseChunked
  rw [ends_bind]
  apply (readChunks_left hR hD hTurns).imp
  rintro a t ⟨rfl, hLeft⟩
  cases hChunks : parseChunks maxBody turns [] w with
  | none => exact ⟨rfl, nofun⟩
  | some r =>
    obtain ⟨cs, last, hw, -⟩ := parseChunks_sound hChunks
    have hShort : r.2.length < turns := by
      rw [hw, List.length_append, List.length_cons] at hTurns
      omega
    rw [Option.map_some]
    dsimp only
    rw [ends_bind]
    apply (readTrailers_left hR (hLeft r hChunks) hShort).imp
    rintro ended u ⟨rfl, hEnd⟩
    rw [ends_pure, Option.bind_some]
    cases hTrailers : parseTrailers turns r.2 with
    | none => exact ⟨rfl, nofun⟩
    | some rest => exact ⟨rfl, by rintro _ ⟨⟩; exact hEnd rest hTrailers⟩

end Taken

end HttpMessage

end DataReel
