import DataReel.Net.HttpBody

/-! # The bodies that are accepted

What the reader takes for a body is compared with what RFC 9112 frames, by the framings of the stream.
-/

namespace DataReel

open Program

namespace HttpMessage

section Sizes

variable {line : Text} {n maxBody : Nat}

theorem stripReturn_append (s : Text) : TlsConnection.stripReturn (s ++ ['\r']) = s :=
  Source.stripReturn_crlf s

theorem trimRight_blanks {hex blanks : Text} (hHex : Text.IsDigits 16 hex) (hBlanks : ∀ c ∈ blanks, c = ' ' ∨ c = '\t') :
    Text.trim (hex ++ blanks) = hex := by
  obtain ⟨c, t, hEq, hc⟩ := hHex.head
  have hLeft : Text.trimLeft (hex ++ blanks) = hex ++ blanks := by
    rw [hEq, List.cons_append]
    exact Text.trimLeft_cons_of_not_isSpace (Text.not_isSpace_of_digit (by omega))
  rw [Text.trim, hLeft]
  induction blanks using List.reverseRecOn with
  | nil =>
    rw [List.append_nil]
    apply List.rdropWhile_eq_self_iff.mpr
    intro hNe
    simpa using Text.not_isSpace_of_digit (hHex.digit _ (List.getLast_mem hNe))
  | append_singleton bs d ih =>
    have hSpace : Text.isSpace d = true := by
      rcases hBlanks d (by simp) with rfl | rfl <;> decide
    have hRest : ∀ c ∈ bs, c = ' ' ∨ c = '\t' := fun c hc => hBlanks c (by simp [hc])
    unfold Text.trimRight at ih ⊢
    rw [← List.append_assoc, List.rdropWhile_concat_pos _ _ d hSpace]
    apply ih hRest
    rw [hEq, List.cons_append]
    exact Text.trimLeft_cons_of_not_isSpace (Text.not_isSpace_of_digit (by omega))

/-- What stands before the extension of a chunk. -/
theorem takeWhile_extension {hex ext : Text} (hHex : Text.IsDigits 16 hex) (hExt : IsExtension ext) :
    Text.trim ((hex ++ ext).takeWhile (· ≠ ';')) = hex := by
  have hDigits : ∀ c ∈ hex, decide (c ≠ ';') = true := by
    intro c hc
    apply decide_eq_true
    rintro rfl
    exact hHex.not_mem (by decide) hc
  rcases hExt with rfl | ⟨blanks, e, rfl, hBlanks, -⟩
  · have hNone : Text.trim (hex ++ []) = hex := trimRight_blanks hHex nofun
    rw [List.append_nil, List.takeWhile_eq_self_iff.mpr hDigits]
    rwa [List.append_nil] at hNone
  · have hPlain : ∀ c ∈ blanks, decide (c ≠ ';') = true := by
      intro c hc
      rcases hBlanks c hc with rfl | rfl <;> decide
    rw [List.takeWhile_append_of_pos hDigits, List.takeWhile_append_of_pos hPlain]
    rw [List.takeWhile_cons_of_neg (by decide), List.append_nil]
    exact trimRight_blanks hHex hBlanks

theorem HasSize.chunkSize (h : HasSize line n) (hn : n < 2 ^ 64) :
    chunkSize (TlsConnection.stripReturn line) = some n := by
  obtain ⟨hex, ext, rfl, hHex, hExt, hNumber⟩ := h
  rw [stripReturn_append]
  unfold HttpMessage.chunkSize
  rw [takeWhile_extension hHex hExt]
  dsimp only
  rw [if_neg (by simpa using hHex.ne), Text.wholeNumber_small hHex (by decide) hNumber hn]

end Sizes

section Compare

variable {maxBody k k' : Nat} {r r' last last' : Text} {cs cs' : List Chunk} {f f' : Framing}

/-- The chunks that the reader takes and those of RFC 9112 are the same where a stream has both. -/
theorem chunks_unique (hMax : maxBody < 2 ^ 64) (h : (readerGrammar maxBody).ReadsChunks k cs)
    (hLast : (readerGrammar maxBody).ReadsLast last) (h' : (rfcGrammar maxBody).ReadsChunks k' cs')
    (hLast' : (rfcGrammar maxBody).ReadsLast last')
    (hEq : chunksText cs ++ last ++ '\n' :: r = chunksText cs' ++ last' ++ '\n' :: r') :
    cs = cs' ∧ last = last' ∧ r = r' := by
  induction cs generalizing k k' cs' with
  | nil =>
    cases cs' with
    | nil =>
      obtain ⟨hLine, hRest⟩ := append_cons_inj hLast.1 hLast'.1 hEq
      exact ⟨rfl, hLine, hRest⟩
    | cons c' cs' =>
      have hText : last ++ '\n' :: r =
          c'.line ++ '\n' :: (c'.data ++ (c'.stop ++ '\n' :: (chunksText cs' ++ last' ++ '\n' :: r'))) := by
        rw [chunksText_cons] at hEq
        simpa [chunksText] using hEq
      obtain ⟨hLine, -⟩ := append_cons_inj hLast.1 h'.1.line hText
      have hSmall : c'.data.length < 2 ^ 64 := by
        have := h'.1.fits
        change k' + c'.data.length ≤ maxBody at this
        omega
      have hSize := h'.1.size.chunkSize hSmall
      rw [← hLine, hLast.2.2] at hSize
      have hZero := Option.some.inj hSize
      exact absurd (List.length_eq_zero_iff.mp hZero.symm) h'.1.data
  | cons c cs ih =>
    cases cs' with
    | nil =>
      have hText : c.line ++ '\n' :: (c.data ++ (c.stop ++ '\n' :: (chunksText cs ++ last ++ '\n' :: r))) =
          last' ++ '\n' :: r' := by
        rw [chunksText_cons] at hEq
        simpa [chunksText] using hEq
      obtain ⟨hLine, -⟩ := append_cons_inj h.1.line hLast'.1 hText
      have hSize := hLast'.2.chunkSize (by decide)
      rw [← hLine, h.1.size.2] at hSize
      exact absurd (List.length_eq_zero_iff.mp (Option.some.inj hSize)) h.1.data
    | cons c' cs' =>
      have hText : c.line ++ '\n' :: (c.data ++ (c.stop ++ '\n' :: (chunksText cs ++ last ++ '\n' :: r))) =
          c'.line ++ '\n' :: (c'.data ++ (c'.stop ++ '\n' :: (chunksText cs' ++ last' ++ '\n' :: r'))) := by
        rw [chunksText_cons, chunksText_cons] at hEq
        simpa using hEq
      obtain ⟨hLine, hRest⟩ := append_cons_inj h.1.line h'.1.line hText
      have hSmall : c'.data.length < 2 ^ 64 := by
        have := h'.1.fits
        change k' + c'.data.length ≤ maxBody at this
        omega
      have hSize := h'.1.size.chunkSize hSmall
      rw [← hLine, h.1.size.2] at hSize
      obtain ⟨hData, hStops⟩ := List.append_inj hRest (Option.some.inj hSize)
      obtain ⟨hStop, hMore⟩ := append_cons_inj h.1.unbroken h'.1.unbroken hStops
      obtain ⟨rfl, rfl, rfl⟩ := ih h.2 h'.2 hMore
      refine ⟨?_, rfl, rfl⟩
      congr 1
      cases c
      cases c'
      cases hLine
      cases hData
      cases hStop
      rfl

theorem trailers_unique {ls ls' : List Text} {final final' : Text} (h : (readerGrammar maxBody).ReadsTrailers ls final)
    (h' : (rfcGrammar maxBody).ReadsTrailers ls' final')
    (hEq : linesText ls ++ (final ++ '\n' :: r) = linesText ls' ++ (final' ++ '\n' :: r')) :
    ls = ls' ∧ final = final' ∧ r = r' := by
  have hFinal' : final' = ['\r'] := h'.final
  have hStrip : TlsConnection.stripReturn ['\r'] = [] := by decide
  induction ls generalizing ls' with
  | nil =>
    cases ls' with
    | nil =>
      obtain ⟨hLine, hRest⟩ := append_cons_inj h.unbroken h'.unbroken hEq
      exact ⟨rfl, hLine, hRest⟩
    | cons l' ls' =>
      obtain ⟨hUnbroken, t, rfl, hNe⟩ := h'.trailers l' List.mem_cons_self
      rw [linesText_cons] at hEq
      obtain ⟨rfl, -⟩ := append_cons_inj h.unbroken hUnbroken (by simpa [linesText] using hEq)
      have hEnd := h.final.2
      rw [stripReturn_append] at hEnd
      exact absurd hEnd hNe
  | cons l ls ih =>
    obtain ⟨hUnbroken, hShort, hNe⟩ := h.trailers l List.mem_cons_self
    cases ls' with
    | nil =>
      rw [linesText_cons] at hEq
      obtain ⟨rfl, -⟩ := append_cons_inj hUnbroken h'.unbroken (by simpa [linesText] using hEq)
      rw [hFinal'] at hNe
      exact absurd hStrip hNe
    | cons l' ls' =>
      rw [linesText_cons, linesText_cons] at hEq
      obtain ⟨rfl, hRest⟩ := append_cons_inj hUnbroken (h'.trailers l' List.mem_cons_self).1 (by simpa using hEq)
      have hLess : (readerGrammar maxBody).ReadsTrailers ls final :=
        ⟨fun l hl => h.trailers l (List.mem_cons_of_mem _ hl), h.unbroken, h.final⟩
      have hLess' : (rfcGrammar maxBody).ReadsTrailers ls' final' :=
        ⟨fun l hl => h'.trailers l (List.mem_cons_of_mem _ hl), h'.unbroken, h'.final⟩
      obtain ⟨rfl, hEnd, hTail⟩ := ih hLess hLess' hRest
      exact ⟨rfl, hEnd, hTail⟩

theorem reads_unique (hMax : maxBody < 2 ^ 64) (h : (readerGrammar maxBody).Reads f)
    (h' : (rfcGrammar maxBody).Reads f') (hEq : f.text ++ r = f'.text ++ r') : f = f' := by
  rw [framing_text, framing_text] at hEq
  obtain ⟨hChunks, hLast, hRest⟩ := chunks_unique hMax h.chunks h.last h'.chunks h'.last hEq
  obtain ⟨hTrailers, hFinal, -⟩ := trailers_unique h.trailers h'.trailers hRest
  cases f
  cases f'
  cases hChunks
  cases hLast
  cases hTrailers
  cases hFinal
  rfl

/-! ## How a framing is spelled -/

/-- Each line has the digits and the line break that RFC 9112 asks for, and the body is not too long. -/
structure Spelled (maxBody : Nat) (f : Framing) : Prop where
  chunks : ∀ c ∈ f.chunks, HasSize c.line c.data.length ∧ c.stop = ['\r']
  last : HasSize f.last 0
  trailers : ∀ l ∈ f.trailers, ['\r'] <:+ l
  final : f.final = ['\r']
  body : f.body.length ≤ maxBody

/-- No line is longer than the reader takes. -/
structure ShortLines (f : Framing) : Prop where
  chunks : ∀ c ∈ f.chunks, c.line.length ≤ 1024
  last : f.last.length ≤ 1024
  trailers : ∀ l ∈ f.trailers, l.length ≤ 16384

theorem readsChunks_rfc_iff (h : (readerGrammar maxBody).ReadsChunks k cs) (hk : k ≤ maxBody) :
    (rfcGrammar maxBody).ReadsChunks k cs ↔
      (∀ c ∈ cs, HasSize c.line c.data.length ∧ c.stop = ['\r']) ∧ k + (chunksData cs).length ≤ maxBody := by
  induction cs generalizing k with
  | nil => exact ⟨fun _ => ⟨nofun, hk⟩, fun _ => trivial⟩
  | cons c cs ih =>
    rw [List.forall_mem_cons, chunksData_cons, List.length_append, ← Nat.add_assoc]
    constructor
    · rintro ⟨hChunk, hRest⟩
      have hFits : k + c.data.length ≤ maxBody := hChunk.fits
      obtain ⟨hAll, hTotal⟩ := (ih h.2 hFits).mp hRest
      exact ⟨⟨⟨hChunk.size, hChunk.stop⟩, hAll⟩, hTotal⟩
    · rintro ⟨⟨⟨hSize, hStop⟩, hAll⟩, hTotal⟩
      have hFits : k + c.data.length ≤ maxBody := by omega
      exact ⟨⟨h.1.line, hSize, h.1.data, hFits, h.1.unbroken, hStop⟩, (ih h.2 hFits).mpr ⟨hAll, hTotal⟩⟩

theorem readsChunks_reader_iff (hMax : maxBody < 2 ^ 64) (h : (rfcGrammar maxBody).ReadsChunks k cs) :
    (readerGrammar maxBody).ReadsChunks k cs ↔ ∀ c ∈ cs, c.line.length ≤ 1024 := by
  induction cs generalizing k with
  | nil => exact ⟨fun _ => nofun, fun _ => trivial⟩
  | cons c cs ih =>
    obtain ⟨hChunk, hRest⟩ := h
    have hFits : k + c.data.length ≤ maxBody := hChunk.fits
    rw [List.forall_mem_cons, ← ih hRest]
    constructor
    · rintro ⟨hReads, hMore⟩
      exact ⟨hReads.size.1, hMore⟩
    · rintro ⟨hShort, hMore⟩
      have hStop : c.stop = ['\r'] := hChunk.stop
      refine ⟨⟨hChunk.line, ⟨hShort, hChunk.size.chunkSize (by omega)⟩, hChunk.data, ⟨by omega, ?_⟩,
        hChunk.unbroken, ?_⟩, hMore⟩
      · rw [Nat.mod_eq_of_lt (by omega)]
        exact hFits
      · rw [hStop]
        exact ⟨by decide, by decide⟩

theorem reads_rfc_iff (h : (readerGrammar maxBody).Reads f) : (rfcGrammar maxBody).Reads f ↔ Spelled maxBody f := by
  have hChunks := readsChunks_rfc_iff h.chunks (Nat.zero_le maxBody)
  rw [Nat.zero_add] at hChunks
  constructor
  · intro hReads
    obtain ⟨hAll, hBody⟩ := hChunks.mp hReads.chunks
    refine ⟨hAll, hReads.last.2, ?_, hReads.trailers.final, hBody⟩
    intro l hl
    obtain ⟨-, t, rfl, -⟩ := hReads.trailers.trailers l hl
    exact List.suffix_append t ['\r']
  · intro hSpelled
    refine ⟨hChunks.mpr ⟨hSpelled.chunks, hSpelled.body⟩, ⟨h.last.1, hSpelled.last⟩, ?_, h.trailers.unbroken,
      hSpelled.final⟩
    intro l hl
    obtain ⟨hUnbroken, -, hNe⟩ := h.trailers.trailers l hl
    obtain ⟨t, rfl⟩ := hSpelled.trailers l hl
    rw [stripReturn_append] at hNe
    exact ⟨hUnbroken, t, rfl, hNe⟩

theorem reads_reader_iff (hMax : maxBody < 2 ^ 64) (h : (rfcGrammar maxBody).Reads f) :
    (readerGrammar maxBody).Reads f ↔ ShortLines f := by
  have hChunks := readsChunks_reader_iff hMax h.chunks
  constructor
  · intro hReads
    exact ⟨hChunks.mp hReads.chunks, hReads.last.2.1, fun l hl => (hReads.trailers.trailers l hl).2.1⟩
  · intro hShort
    have hFinal : f.final = ['\r'] := h.trailers.final
    refine ⟨hChunks.mpr hShort.chunks, ⟨h.last.1, hShort.last, h.last.2.chunkSize (by decide)⟩, ?_,
      h.trailers.unbroken, ?_⟩
    · intro l hl
      obtain ⟨hUnbroken, t, rfl, hNe⟩ := h.trailers.trailers l hl
      refine ⟨hUnbroken, hShort.trailers _ hl, ?_⟩
      rw [stripReturn_append]
      exact hNe
    · rw [hFinal]
      exact ⟨by decide, by decide⟩

end Compare

/-! ## The headers -/

/-- The values of all headers of a name. -/
def headerValues (msg : HttpMessage) (name : Text) : List Text :=
  (msg.headers.filter fun h => Text.iequals h.1 name).map Prod.snd

/-- The transfer codings in their order, which the headers list with commas. -/
def transferCodings (msg : HttpMessage) : List Text :=
  (((headerValues msg "Transfer-Encoding".toList).flatMap fun v => Text.split v ',' false).map fun t =>
    Text.lower (Text.trim t)).filter fun t => !t.isEmpty

/-- The chunked coding is the last. -/
def IsChunked (msg : HttpMessage) : Prop := (transferCodings msg).getLast? = some "chunked".toList

instance (msg : HttpMessage) : Decidable (IsChunked msg) := inferInstanceAs (Decidable (_ = _))

/-- The lengths that are given are one decimal number, and as many bytes are there. -/
def FramedByLength (values : List Text) (maxBody : Nat) (w b rest : Text) : Prop :=
  if values.isEmpty then b = [] ∧ rest = w
  else (∀ v ∈ values, Text.IsDigits 10 v ∧ Text.numberIn 10 v = b.length) ∧ b.length ≤ maxBody ∧ w = b ++ rest

/-- A body at the front of a stream, and what follows it. -/
def Framed (msg : HttpMessage) (maxBody : Nat) (w b rest : Text) : Prop :=
  if IsChunked msg then ∃ f, (rfcGrammar maxBody).Reads f ∧ w = f.text ++ rest ∧ b = f.body
  else FramedByLength (headerValues msg "Content-Length".toList) maxBody w b rest

/-- What the reader takes for the mark of chunks. -/
def namesChunked (msg : HttpMessage) : Bool :=
  Text.iinfix "chunked".toList (msg.header "Transfer-Encoding".toList)

/-- The reader takes a header for the length `n`, and finds as many bytes as far as an `int` tells. -/
def TakesLength (value : Text) (maxBody : Nat) (w : Text) (n : Nat) : Prop :=
  Text.wholeNumber 10 value = some n ∧ n ≤ maxBody ∧ sameInt (min n w.length) n = true

/-- Where both see chunks, each framing that the reader takes is spelled as RFC 9112 asks for, and each of those has
no line that is too long. Where neither does, the first length is not empty and, if the reader takes it, is that of
all headers in decimal digits, and all bytes are there. Where one does alone, none of the two finds a body. -/
def FramedAlike (msg : HttpMessage) (maxBody : Nat) (w : Text) : Prop :=
  let values := headerValues msg "Content-Length".toList
  match namesChunked msg, decide (IsChunked msg) with
  | true, true => ∀ f rest, w = f.text ++ rest →
      ((readerGrammar maxBody).Reads f → Spelled maxBody f) ∧ ((rfcGrammar maxBody).Reads f → ShortLines f)
  | false, false => values = [] ∨ values.headD [] ≠ [] ∧ ∀ n, TakesLength (values.headD []) maxBody w n →
      (∀ v ∈ values, Text.IsDigits 10 v ∧ Text.numberIn 10 v = n) ∧ n ≤ w.length
  | true, false => (∀ f rest, w = f.text ++ rest → ¬(readerGrammar maxBody).Reads f) ∧
      ∀ b rest, ¬FramedByLength values maxBody w b rest
  | false, true => (∀ f rest, w = f.text ++ rest → ¬(rfcGrammar maxBody).Reads f) ∧
      values.headD [] ≠ [] ∧ ∀ n, ¬TakesLength (values.headD []) maxBody w n

section Accept

variable {msg : HttpMessage} {maxBody turns n : Nat} {w b rest value : Text} {values : List Text}

theorem header_eq (msg : HttpMessage) (name : Text) : msg.header name = (headerValues msg name).headD [] := by
  unfold header headerValues
  rw [← List.head?_filter]
  cases msg.headers.filter fun h => Text.iequals h.1 name <;> rfl

/-- The body that the reader takes by a length. -/
def lengthTaken (value : Text) (maxBody : Nat) (w : Text) : Option (Text × Text) :=
  if value.isEmpty then some ([], w)
  else
    match Text.wholeNumber 10 value with
    | none => none
    | some n => if maxBody < n then none else if sameInt (w.take n).length n then some (w.take n, w.drop n) else none

theorem lengthTaken_iff : lengthTaken value maxBody w = some (b, rest) ↔
    value = [] ∧ b = [] ∧ rest = w ∨
      value ≠ [] ∧ ∃ n, TakesLength value maxBody w n ∧ b = w.take n ∧ rest = w.drop n := by
  unfold lengthTaken TakesLength
  cases value with
  | nil =>
    rw [List.isEmpty_nil, if_pos rfl]
    constructor
    · rintro ⟨⟩
      exact Or.inl ⟨rfl, rfl, rfl⟩
    · rintro (⟨-, rfl, rfl⟩ | ⟨hNe, -⟩)
      · rfl
      · exact absurd rfl hNe
  | cons c v =>
    rw [List.isEmpty_cons, if_neg Bool.false_ne_true]
    cases Text.wholeNumber 10 (c :: v) with
    | none => simp
    | some n =>
      dsimp only
      rw [List.length_take]
      constructor
      · intro h
        split at h
        · cases h
        · next hMax =>
          split at h
          · next hSame =>
            cases h
            exact Or.inr ⟨List.cons_ne_nil c v, n, ⟨rfl, by omega, hSame⟩, rfl, rfl⟩
          · cases h
      · rintro (⟨hNil, -⟩ | ⟨-, k, ⟨hk, hMax, hSame⟩, rfl, rfl⟩)
        · cases hNil
        · obtain rfl := Option.some.inj hk
          rw [if_neg (by omega), if_pos hSame]

/-- The body that the reader takes. -/
def bodyTaken (msg : HttpMessage) (maxBody turns : Nat) (w : Text) : Option (Text × Text) :=
  if namesChunked msg then parseChunked maxBody turns w
  else lengthTaken (msg.header "Content-Length".toList) maxBody w

theorem readBody_left {env : Environment NetAnswer} {c : Nat} {R : Source env c}
    {D : Dialogue NetAnswer TlsConnection} {E : Dialogue NetAnswer TlsConnection → Prop} (msg : HttpMessage)
    (maxBody : Nat) (hR : R.Final)
    (hD : R.Left w D) (hTurns : w.length < turns) :
    Ends (readBody env c msg maxBody false turns) D (fun a t =>
      a = (bodyTaken msg maxBody turns w).map Prod.fst ∧
        ∀ r ∈ bodyTaken msg maxBody turns w, R.Left r.2 t) E := by
  unfold readBody bodyTaken
  rw [ends_ite]
  constructor
  · intro hChunked
    have hNamed : namesChunked msg = true := hChunked
    rw [if_pos hNamed]
    exact readChunked_left hR hD hTurns
  · intro hOther
    have hNamed : ¬namesChunked msg = true := hOther
    rw [if_neg hNamed, ends_ite]
    unfold lengthTaken
    constructor
    · intro hLength
      rw [if_neg (by simpa using hLength)]
      unfold readSized
      cases Text.wholeNumber 10 (msg.header "Content-Length".toList) with
      | none => exact ⟨rfl, nofun⟩
      | some n =>
        dsimp only
        rw [ends_ite]
        constructor
        · intro hLong
          rw [if_pos hLong]
          exact ⟨rfl, nofun⟩
        · intro hMax
          rw [if_neg hMax, ends_bind]
          apply (Source.readBytes_left hR n hD).imp
          rintro a t ⟨rfl, hLeft⟩
          rw [ends_pure]
          split
          · exact ⟨rfl, by rintro _ ⟨⟩; exact hLeft⟩
          · exact ⟨rfl, nofun⟩
    · intro hNone
      rw [ends_ite]
      constructor
      · intro hFalse
        cases hFalse
      · intro _
        rw [if_pos (by simpa using hNone)]
        exact ⟨rfl, by rintro _ ⟨⟩; exact hD⟩

theorem length_chunksData (cs : List Chunk) : (chunksData cs).length ≤ (chunksText cs).length := by
  induction cs with
  | nil => exact Nat.le_refl 0
  | cons c cs ih =>
    rw [chunksData_cons, chunksText_cons]
    simp only [List.length_append, List.length_cons]
    omega

/-- A framing is longer than its body. -/
theorem length_body (f : Framing) : f.body.length < f.text.length := by
  have := length_chunksData f.chunks
  unfold Framing.body Framing.text
  simp only [List.length_append, List.length_cons]
  omega

/-- What is taken is what is framed, with the same bytes left. -/
def TakesFramed (msg : HttpMessage) (maxBody turns : Nat) (w : Text) : Prop :=
  (∀ b rest, bodyTaken msg maxBody turns w = some (b, rest) → Framed msg maxBody w b rest) ∧
    ∀ b rest, Framed msg maxBody w b rest → ∃ rest', bodyTaken msg maxBody turns w = some (b, rest')

theorem chunked_alike (hMax : maxBody < 2 ^ 64) (hTurns : w.length < turns) (hNamed : namesChunked msg = true)
    (hChunked : IsChunked msg) : TakesFramed msg maxBody turns w ↔ ∀ f rest, w = f.text ++ rest →
      ((readerGrammar maxBody).Reads f → Spelled maxBody f) ∧ ((rfcGrammar maxBody).Reads f → ShortLines f) := by
  have hTaken (b rest : Text) : bodyTaken msg maxBody turns w = some (b, rest) ↔
      ∃ f, (readerGrammar maxBody).Reads f ∧ w = f.text ++ rest ∧ b = f.body := by
    rw [bodyTaken, if_pos hNamed]
    exact parseChunked_iff hTurns
  have hFramed (b rest : Text) : Framed msg maxBody w b rest ↔
      ∃ f, (rfcGrammar maxBody).Reads f ∧ w = f.text ++ rest ∧ b = f.body := by
    rw [Framed, if_pos hChunked]
  constructor
  · rintro ⟨hSound, hComplete⟩ f rest hw
    constructor
    · intro hReads
      obtain ⟨f', hReads', hw', -⟩ := (hFramed _ _).mp (hSound f.body rest ((hTaken _ _).mpr ⟨f, hReads, hw, rfl⟩))
      have hSame := reads_unique hMax hReads hReads' (hw.symm.trans hw')
      exact (reads_rfc_iff hReads).mp (hSame ▸ hReads')
    · intro hReads
      obtain ⟨rest', hRest⟩ := hComplete f.body rest ((hFramed _ _).mpr ⟨f, hReads, hw, rfl⟩)
      obtain ⟨f', hReads', hw', -⟩ := (hTaken _ _).mp hRest
      have hSame := reads_unique hMax hReads' hReads (hw'.symm.trans hw)
      exact (reads_reader_iff hMax hReads).mp (hSame ▸ hReads')
  · intro h
    constructor
    · intro b rest hb
      obtain ⟨f, hReads, hw, hBody⟩ := (hTaken b rest).mp hb
      exact (hFramed b rest).mpr ⟨f, (reads_rfc_iff hReads).mpr ((h f rest hw).1 hReads), hw, hBody⟩
    · intro b rest hb
      obtain ⟨f, hReads, hw, hBody⟩ := (hFramed b rest).mp hb
      exact ⟨rest, (hTaken b rest).mpr ⟨f, (reads_reader_iff hMax hReads).mpr ((h f rest hw).2 hReads), hw, hBody⟩⟩

theorem headD_mem (h : values ≠ []) : values.headD [] ∈ values := by
  cases values with
  | nil => exact absurd rfl h
  | cons v vs => exact List.mem_cons_self

theorem framedByLength_takes (hMax : maxBody < 2 ^ 64) (hNe : values ≠ [])
    (h : FramedByLength values maxBody w b rest) :
    values.headD [] ≠ [] ∧ TakesLength (values.headD []) maxBody w b.length ∧ w = b ++ rest := by
  rw [FramedByLength, if_neg (by simpa using hNe)] at h
  obtain ⟨hAll, hBound, hw⟩ := h
  obtain ⟨hDigits, hNumber⟩ := hAll _ (headD_mem hNe)
  refine ⟨hDigits.ne, ⟨Text.wholeNumber_small hDigits (by decide) hNumber (by omega), hBound, ?_⟩, hw⟩
  rw [hw, List.length_append, Nat.min_eq_left (by omega)]
  simp [sameInt]

theorem lengths_alike (hMax : maxBody < 2 ^ 64) (hValues : values = headerValues msg "Content-Length".toList)
    (hNamed : ¬namesChunked msg = true) (hChunked : ¬IsChunked msg) :
    TakesFramed msg maxBody turns w ↔
      values = [] ∨ values.headD [] ≠ [] ∧ ∀ n, TakesLength (values.headD []) maxBody w n →
        (∀ v ∈ values, Text.IsDigits 10 v ∧ Text.numberIn 10 v = n) ∧ n ≤ w.length := by
  have hTaken (b rest : Text) : bodyTaken msg maxBody turns w = some (b, rest) ↔
      values.headD [] = [] ∧ b = [] ∧ rest = w ∨ values.headD [] ≠ [] ∧
        ∃ n, TakesLength (values.headD []) maxBody w n ∧ b = w.take n ∧ rest = w.drop n := by
    rw [bodyTaken, if_neg hNamed, header_eq, ← hValues]
    exact lengthTaken_iff
  have hFramed (b rest : Text) : Framed msg maxBody w b rest ↔ FramedByLength values maxBody w b rest := by
    rw [Framed, if_neg hChunked, hValues]
  unfold TakesFramed
  by_cases hNe : values = []
  · rw [hNe] at hTaken hFramed
    constructor
    · intro _
      exact Or.inl hNe
    · intro _
      constructor
      · intro b rest hb
        rcases (hTaken b rest).mp hb with ⟨-, hEmpty⟩ | ⟨hNot, -⟩
        · exact (hFramed b rest).mpr hEmpty
        · exact absurd rfl hNot
      · intro b rest hb
        exact ⟨rest, (hTaken b rest).mpr (Or.inl ⟨rfl, (hFramed b rest).mp hb⟩)⟩
  · rw [or_iff_right hNe]
    constructor
    · rintro ⟨hSound, -⟩
      constructor
      · intro hNil
        have hEmpty := (hFramed _ _).mp (hSound [] w ((hTaken [] w).mpr (Or.inl ⟨hNil, rfl, rfl⟩)))
        exact (framedByLength_takes hMax hNe hEmpty).1 hNil
      · intro n hn
        by_cases hNil : values.headD [] = []
        · have hEmpty := (hFramed _ _).mp (hSound [] w ((hTaken [] w).mpr (Or.inl ⟨hNil, rfl, rfl⟩)))
          exact absurd hNil (framedByLength_takes hMax hNe hEmpty).1
        · have hBody := (hFramed _ _).mp (hSound _ _ ((hTaken _ _).mpr (Or.inr ⟨hNil, n, hn, rfl, rfl⟩)))
          obtain ⟨-, hTakes, -⟩ := framedByLength_takes hMax hNe hBody
          have hSame : n = (w.take n).length := Option.some.inj (hn.1.symm.trans hTakes.1)
          rw [FramedByLength, if_neg (by simpa using hNe), ← hSame] at hBody
          rw [List.length_take] at hSame
          exact ⟨hBody.1, by omega⟩
    · rintro ⟨hNil, hAll⟩
      constructor
      · intro b rest hb
        rcases (hTaken b rest).mp hb with ⟨hEmpty, -⟩ | ⟨-, n, hn, rfl, rfl⟩
        · exact absurd hEmpty hNil
        · obtain ⟨hDigits, hLength⟩ := hAll n hn
          have hSame : (w.take n).length = n := by
            rw [List.length_take]
            omega
          rw [hFramed, FramedByLength, if_neg (by simpa using hNe), hSame]
          exact ⟨hDigits, hn.2.1, (List.take_append_drop n w).symm⟩
      · intro b rest hb
        obtain ⟨-, hTakes, hw⟩ := framedByLength_takes hMax hNe ((hFramed b rest).mp hb)
        refine ⟨rest, (hTaken b rest).mpr (Or.inr ⟨hNil, b.length, hTakes, ?_, ?_⟩)⟩
        · rw [hw, List.take_left]
        · rw [hw, List.drop_left]

theorem framedByLength_length (h : FramedByLength values maxBody w b rest) : w.length = b.length + rest.length := by
  unfold FramedByLength at h
  split at h
  · rw [h.1, h.2, List.length_nil, Nat.zero_add]
  · rw [h.2.2, List.length_append]

theorem length_framing {f : Framing} (h : w = f.text ++ rest) : f.body.length + rest.length < w.length := by
  have := length_body f
  rw [h, List.length_append]
  omega

/-- The reader alone sees chunks. -/
theorem named_alike (hTurns : w.length < turns) (hNamed : namesChunked msg = true) (hChunked : ¬IsChunked msg) :
    TakesFramed msg maxBody turns w ↔
      (∀ f rest, w = f.text ++ rest → ¬(readerGrammar maxBody).Reads f) ∧
        ∀ b rest, ¬FramedByLength (headerValues msg "Content-Length".toList) maxBody w b rest := by
  have hTaken (b rest : Text) : bodyTaken msg maxBody turns w = some (b, rest) ↔
      ∃ f, (readerGrammar maxBody).Reads f ∧ w = f.text ++ rest ∧ b = f.body := by
    rw [bodyTaken, if_pos hNamed]
    exact parseChunked_iff hTurns
  have hFramed (b rest : Text) : Framed msg maxBody w b rest ↔
      FramedByLength (headerValues msg "Content-Length".toList) maxBody w b rest := by
    rw [Framed, if_neg hChunked]
  constructor
  · rintro ⟨hSound, hComplete⟩
    have hNone : ∀ f rest, w = f.text ++ rest → ¬(readerGrammar maxBody).Reads f := by
      intro f rest hw hReads
      have hLength := framedByLength_length
        ((hFramed _ _).mp (hSound f.body rest ((hTaken _ _).mpr ⟨f, hReads, hw, rfl⟩)))
      have := length_framing hw
      omega
    refine ⟨hNone, fun b rest hb => ?_⟩
    obtain ⟨rest', hRest⟩ := hComplete b rest ((hFramed b rest).mpr hb)
    obtain ⟨f, hReads, hw, -⟩ := (hTaken _ _).mp hRest
    exact hNone f rest' hw hReads
  · rintro ⟨hNone, hNoLength⟩
    constructor
    · intro b rest hb
      obtain ⟨f, hReads, hw, -⟩ := (hTaken b rest).mp hb
      exact absurd hReads (hNone f rest hw)
    · intro b rest hb
      exact absurd ((hFramed b rest).mp hb) (hNoLength b rest)

/-- The reader alone sees no chunks. -/
theorem unnamed_alike (hValues : values = headerValues msg "Content-Length".toList) (hNamed : ¬namesChunked msg = true)
    (hChunked : IsChunked msg) :
    TakesFramed msg maxBody turns w ↔
      (∀ f rest, w = f.text ++ rest → ¬(rfcGrammar maxBody).Reads f) ∧
        values.headD [] ≠ [] ∧ ∀ n, ¬TakesLength (values.headD []) maxBody w n := by
  have hTaken (b rest : Text) : bodyTaken msg maxBody turns w = some (b, rest) ↔
      values.headD [] = [] ∧ b = [] ∧ rest = w ∨ values.headD [] ≠ [] ∧
        ∃ n, TakesLength (values.headD []) maxBody w n ∧ b = w.take n ∧ rest = w.drop n := by
    rw [bodyTaken, if_neg hNamed, header_eq, ← hValues]
    exact lengthTaken_iff
  have hFramed (b rest : Text) : Framed msg maxBody w b rest ↔
      ∃ f, (rfcGrammar maxBody).Reads f ∧ w = f.text ++ rest ∧ b = f.body := by
    rw [Framed, if_pos hChunked]
  have hLength {b rest : Text} (h : bodyTaken msg maxBody turns w = some (b, rest)) :
      b.length + rest.length = w.length := by
    rcases (hTaken b rest).mp h with ⟨-, rfl, rfl⟩ | ⟨-, n, -, rfl, rfl⟩
    · exact Nat.zero_add _
    · rw [← List.length_append, List.take_append_drop]
  constructor
  · rintro ⟨hSound, hComplete⟩
    have hNone {b rest : Text} (h : bodyTaken msg maxBody turns w = some (b, rest)) : False := by
      obtain ⟨f, -, hw, rfl⟩ := (hFramed _ _).mp (hSound b rest h)
      have := length_framing hw
      have := hLength h
      omega
    refine ⟨?_, ?_, ?_⟩
    · intro f rest hw hReads
      obtain ⟨rest', hRest⟩ := hComplete f.body rest ((hFramed _ _).mpr ⟨f, hReads, hw, rfl⟩)
      exact hNone hRest
    · intro hNil
      exact hNone ((hTaken [] w).mpr (Or.inl ⟨hNil, rfl, rfl⟩))
    · intro n hn
      by_cases hNil : values.headD [] = []
      · exact hNone ((hTaken [] w).mpr (Or.inl ⟨hNil, rfl, rfl⟩))
      · exact hNone ((hTaken _ _).mpr (Or.inr ⟨hNil, n, hn, rfl, rfl⟩))
  · rintro ⟨hNone, hNil, hNoLength⟩
    constructor
    · intro b rest hb
      rcases (hTaken b rest).mp hb with ⟨hEmpty, -⟩ | ⟨-, n, hn, -⟩
      · exact absurd hEmpty hNil
      · exact absurd hn (hNoLength n)
    · intro b rest hb
      obtain ⟨f, hReads, hw, -⟩ := (hFramed b rest).mp hb
      exact absurd hReads (hNone f rest hw)

theorem takesFramed_iff (hMax : maxBody < 2 ^ 64) (hTurns : w.length < turns) :
    TakesFramed msg maxBody turns w ↔ FramedAlike msg maxBody w := by
  unfold FramedAlike
  by_cases hNamed : namesChunked msg = true <;> by_cases hChunked : IsChunked msg
  · rw [hNamed, decide_eq_true hChunked]
    exact chunked_alike hMax hTurns hNamed hChunked
  · rw [hNamed, decide_eq_false hChunked]
    exact named_alike hTurns hNamed hChunked
  · rw [Bool.eq_false_iff.mpr hNamed, decide_eq_true hChunked]
    exact unnamed_alike rfl hNamed hChunked
  · rw [Bool.eq_false_iff.mpr hNamed, decide_eq_false hChunked]
    exact lengths_alike hMax rfl hNamed hChunked

end Accept

/-! ## The reader over every stream -/

theorem ends_exists {ε σ α : Type} {x : EStateM ε σ α} {s : σ} {Q : α → σ → Prop} (h : Ends x s Q fun _ => False) :
    ∃ a t, Q a t := by
  unfold Ends at h
  cases hRun : x s with
  | ok a t =>
    rw [hRun] at h
    exact ⟨a, t, h⟩
  | error e t =>
    rw [hRun] at h
    exact h.elim

/-- The reader accepts exactly the bodies that are framed at the front of `w`, and leaves what follows them. -/
structure AcceptsFramed {env : Environment NetAnswer} {c : Nat} (R : Source env c)
    (D : Dialogue NetAnswer TlsConnection) (msg : HttpMessage) (maxBody turns : Nat) (w : Text) : Prop where
  ends : Ends (readBody env c msg maxBody false turns) D (fun a t =>
    (∀ b, a = some b → ∃ rest, Framed msg maxBody w b rest ∧ R.Left rest t) ∧
      ∀ b rest, Framed msg maxBody w b rest → a = some b) (fun _ => False)

/-- Over a stream that delivers `w` and ends, the reader accepts the framed bodies exactly if the stream is of that
kind. -/
theorem readBody_framed_iff {env : Environment NetAnswer} {c : Nat} {R : Source env c}
    {D : Dialogue NetAnswer TlsConnection} {w : Text} {maxBody turns : Nat} (hR : R.Final) (hD : R.Left w D)
    (hMax : maxBody < 2 ^ 64) (hTurns : w.length < turns) (msg : HttpMessage) :
    AcceptsFramed R D msg maxBody turns w ↔ FramedAlike msg maxBody w := by
  rw [← takesFramed_iff hMax hTurns]
  have hRun := readBody_left (E := fun _ => False) msg maxBody hR hD hTurns
  constructor
  · rintro ⟨h⟩
    obtain ⟨a, t, ⟨rfl, hLeft⟩, hSound, hComplete⟩ := ends_exists ((hRun.and h).mono (fun _ _ => id) fun _ => And.left)
    constructor
    · intro b rest hb
      obtain ⟨rest', hFramed, hRest'⟩ := hSound b (by rw [hb]; rfl)
      have hSame : rest = rest' := (hLeft _ hb).unique hR hRest'
      rw [hSame]
      exact hFramed
    · intro b rest hb
      obtain ⟨⟨b', rest'⟩, hTaken, rfl⟩ := Option.map_eq_some_iff.mp (hComplete b rest hb)
      exact ⟨rest', hTaken⟩
  · rintro ⟨hSound, hComplete⟩
    constructor
    apply hRun.imp
    rintro a t ⟨rfl, hLeft⟩
    constructor
    · intro b hb
      obtain ⟨⟨b', rest⟩, hTaken, rfl⟩ := Option.map_eq_some_iff.mp hb
      exact ⟨rest, hSound b' rest hTaken, hLeft _ hTaken⟩
    · intro b rest hb
      obtain ⟨rest', hTaken⟩ := hComplete b rest hb
      rw [hTaken]
      rfl

/-- A message with a length. -/
def sized (value : Text) : HttpMessage := { headers := [("Content-Length".toList, value)] }

theorem headerValues_sized (value : Text) : headerValues (sized value) "Content-Length".toList = [value] := by
  have hName : Text.iequals "Content-Length".toList "Content-Length".toList = true := by decide +kernel
  simp only [headerValues, sized, List.filter_cons, hName, if_true, List.filter_nil, List.map_cons, List.map_nil]

theorem readBody_framed_iff_five :
    AcceptsFramed (Source.ofText "hello, world".toList) ⟨{}, []⟩ (sized "5".toList) 10 13 "hello, world".toList := by
  have hNamed : namesChunked (sized "5".toList) = false := by decide +kernel
  have hChunked : decide (IsChunked (sized "5".toList)) = false := by decide +kernel
  have hNumber : Text.wholeNumber 10 "5".toList = some 5 := by decide +kernel
  have hDigits : Text.IsDigits 10 "5".toList ∧ Text.numberIn 10 "5".toList = 5 :=
    ⟨⟨by decide, by simp [Text.digitValue]⟩, by decide +kernel⟩
  have hAlike : FramedAlike (sized "5".toList) 10 "hello, world".toList := by
    unfold FramedAlike
    rw [hNamed, hChunked, headerValues_sized]
    refine Or.inr ⟨by decide, fun n hn => ?_⟩
    obtain rfl : 5 = n := Option.some.inj (hNumber.symm.trans hn.1)
    refine ⟨fun v hv => ?_, by decide +kernel⟩
    obtain rfl := List.mem_singleton.mp hv
    exact hDigits
  have hMax : 10 < 2 ^ 64 := by decide +kernel
  have hTurns : "hello, world".toList.length < 13 := by decide +kernel
  have hFinal := Source.final_ofText "hello, world".toList
  have hLeft := Source.ofText_left "hello, world".toList
  exact (readBody_framed_iff hFinal hLeft hMax hTurns (sized "5".toList)).mpr hAlike

/-- A sign in front of the length is taken. -/
theorem readBody_takes_sign :
    Ends (readBody (Source.atOnce "hello".toList) 0 (sized "+5".toList) 10 false 6) ⟨{}, []⟩
        (fun a _ => a = some "hello".toList) (fun _ => False) ∧
      ∀ rest, ¬Framed (sized "+5".toList) 10 "hello".toList "hello".toList rest := by
  have hTurns : "hello".toList.length < 6 := by decide +kernel
  have hTaken : bodyTaken (sized "+5".toList) 10 6 "hello".toList = some ("hello".toList, []) := by decide +kernel
  have hChunked : ¬IsChunked (sized "+5".toList) := by decide +kernel
  have hRun := readBody_left (E := fun _ => False) (sized "+5".toList) 10 (Source.final_ofText "hello".toList)
    (Source.ofText_left "hello".toList) hTurns
  constructor
  · apply hRun.imp
    rintro a t ⟨hBody, -⟩
    rw [hBody, hTaken]
    rfl
  · intro rest hFramed
    rw [Framed, if_neg hChunked, headerValues_sized, FramedByLength, List.isEmpty_cons,
      if_neg Bool.false_ne_true] at hFramed
    obtain ⟨hDigits, -⟩ := hFramed.1 "+5".toList List.mem_cons_self
    have hPlus := hDigits.digit '+' (by decide +kernel)
    revert hPlus
    decide +kernel

end HttpMessage

end DataReel
