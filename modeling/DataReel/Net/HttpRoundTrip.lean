import DataReel.Net.HttpFraming
import DataReel.Net.Pieces

/-! # Messages that are read back

What the readers of requests and responses make of a stream is a function of its bytes, in whatever pieces they
arrive, and so is what they leave of it for the next message. What the writers send is compared with it, for one
message and for messages one after another on one connection.
-/

namespace DataReel

open Program

/-! ## Messages read off a stream -/

namespace Source

variable {env : Environment NetAnswer} {c : Nat} {R : Source env c} {w : Text} {D : Dialogue NetAnswer TlsConnection}
  {E : Dialogue NetAnswer TlsConnection → Prop}

theorem nextLine_crlf {maxLen : Nat} {line rest : Text} (h : '\n' ∉ line) :
    nextLine maxLen (line ++ Text.crlf ++ rest) = if line.length < maxLen then some (line, rest) else none := by
  have hWire : line ++ Text.crlf ++ rest = line ++ ['\r'] ++ '\n' :: rest := by simp [Text.crlf]
  have hBreak : '\n' ∉ line ++ ['\r'] := by simpa using h
  rw [hWire, nextLine_append hBreak, stripReturn_crlf, List.length_append, List.length_singleton]
  exact if_congr Nat.succ_le_iff rfl rfl

/-- What `ReadAll` takes of a stream that ends with `w`. -/
def closeTaken (maxLen : Nat) (w : Text) : Option (Text × Text) :=
  if w.length ≤ maxLen then some (w, []) else none

theorem readAll_closeTaken (hR : R.Final) (hEnv : ∀ tr secure, env tr (.fill c secure) ≠ .failed) (maxLen : Nat) {n : Nat}
    (hD : R.Left w D) (hn : w.length < n) :
    Ends (TlsConnection.readAll env c (some maxLen) n) D (fun a t =>
      a = (closeTaken maxLen w).map Prod.fst ∧ ∀ r ∈ closeTaken maxLen w, R.Left r.2 t) E := by
  apply (readAll_left hR hEnv (some maxLen) n hD (by omega)).imp
  intro a t h
  unfold closeTaken
  by_cases hFits : w.length ≤ maxLen
  · rw [if_neg (by simpa using hFits)] at h
    rw [if_pos hFits]
    refine ⟨h.1, fun r hr => ?_⟩
    obtain rfl := Option.some.inj hr
    exact h.2
  · rw [if_pos (by simpa using hFits)] at h
    rw [if_neg hFits]
    exact ⟨h.1, by simp⟩

end Source

namespace HttpMessage

/-- The headers at the front of a text, after `total` bytes of them, and what follows them. -/
def headersTaken (headers : List (Text × Text)) (total : Nat) :
    Nat → Text → Option (List (Text × Text) × Text)
  | 0, _ => none
  | n + 1, w => (Source.nextLine 16384 w).bind fun r =>
    if r.1.isEmpty then some (headers, r.2)
    else if 256 * 1024 < total + r.1.length ∨ 200 < headers.length then none
    else (addLine headers r.1).bind fun headers => headersTaken headers (total + r.1.length) n r.2

/-- The first line that is not empty, and what follows it. -/
def startTaken : Nat → Text → Option (Text × Text)
  | 0, _ => none
  | n + 1, w => (Source.nextLine 16384 w).bind fun r => if r.1.isEmpty then startTaken n r.2 else some r

/-- A message whose start line and headers were taken gets its body. -/
def withBody (msg : HttpMessage) (taken : Option (Text × Text)) : Option (HttpMessage × Text) :=
  taken.map fun r => ({ msg with body := r.1 }, r.2)

/-- The request at the front of a text, and what follows it. -/
def requestTaken (maxBody turns : Nat) (w : Text) : Option (HttpMessage × Text) :=
  (startTaken turns w).bind fun line => (parseRequestLine line.1).bind fun msg =>
    (headersTaken [] 0 262146 line.2).bind fun r =>
      let msg := { msg with headers := r.1 }
      msg.withBody (bodyTaken msg maxBody turns r.2)

/-- The body of a response, which may end where the stream does. -/
def replyTaken (msg : HttpMessage) (maxBody turns : Nat) (w : Text) : Option (Text × Text) :=
  if !namesChunked msg && (msg.header "Content-Length".toList).isEmpty then Source.closeTaken maxBody w
  else bodyTaken msg maxBody turns w

/-- The response at the front of a text, and what follows it. -/
def responseTaken (headRequest : Bool) (maxBody turns : Nat) : Nat → Text → Option (HttpMessage × Text)
  | 0, _ => none
  | n + 1, w => (Source.nextLine 16384 w).bind fun line => (parseStatusLine line.1).bind fun msg =>
    (headersTaken [] 0 262146 line.2).bind fun r =>
      let msg := { msg with headers := r.1 }
      if msg.status < 200 then responseTaken headRequest maxBody turns n r.2
      else if headRequest ∨ msg.status = 204 ∨ msg.status = 304 then some (msg, r.2)
      else msg.withBody (replyTaken msg maxBody turns r.2)

/-- The messages that one reader after another takes, if each takes one. -/
def manyTaken (take : Text → Option (HttpMessage × Text)) : Nat → Text → Option (List HttpMessage × Text)
  | 0, w => some ([], w)
  | k + 1, w => (take w).bind fun r => (manyTaken take k r.2).map fun q => (r.1 :: q.1, q.2)

section Reading

variable {env : Environment NetAnswer} {c : Nat} {R : Source env c} {w : Text} {D : Dialogue NetAnswer TlsConnection}
  {E : Dialogue NetAnswer TlsConnection → Prop} {maxBody turns : Nat}

/-- The reader's outcome is what `take` says of the bytes that are left. -/
def Reads {α : Type} (R : Source env c) (E : Dialogue NetAnswer TlsConnection → Prop)
    (x : NetM TlsConnection (Option α)) (taken : Option (α × Text)) (D : Dialogue NetAnswer TlsConnection) : Prop :=
  Ends x D (fun a t => a = taken.map Prod.fst ∧ ∀ r ∈ taken, R.Left r.2 t) E

theorem Reads.bind {α β : Type} {x : NetM TlsConnection (Option α)} {taken : Option (α × Text)}
    {f : Option α → NetM TlsConnection (Option β)} {g : α × Text → Option (β × Text)} (h : Reads R E x taken D)
    (hNone : ∀ t, Reads R E (f none) none t)
    (hSome : ∀ r t, taken = some r → R.Left r.2 t → Reads R E (f (some r.1)) (g r) t) :
    Reads R E (x >>= f) (taken.bind g) D := by
  unfold Reads
  rw [ends_bind]
  apply h.imp
  rintro a t ⟨rfl, hLeft⟩
  cases taken with
  | none => exact hNone t
  | some r => exact hSome r t rfl (hLeft r rfl)

theorem reads_none {α : Type} {t : Dialogue NetAnswer TlsConnection} :
    Reads R E (pure none : NetM TlsConnection (Option α)) none t :=
  ⟨rfl, by simp⟩

theorem reads_some {α : Type} {a : α} {t : Dialogue NetAnswer TlsConnection} (h : R.Left w t) :
    Reads R E (pure (some a) : NetM TlsConnection (Option α)) (some (a, w)) t := by
  refine ⟨rfl, fun r hr => ?_⟩
  obtain rfl := Option.some.inj hr
  exact h

theorem readHeaders_left (hR : R.Final) (hD : R.Left w D) (headers : List (Text × Text)) (total n : Nat) :
    Reads R E (readHeaders env c headers total n) (headersTaken headers total n w) D := by
  induction n generalizing headers total w D with
  | zero => exact reads_none
  | succ n ih =>
    unfold readHeaders headersTaken
    refine Reads.bind (Source.readLine_left hR 16384 hD) (fun _ => reads_none) ?_
    rintro ⟨line, rest⟩ t - hRest
    dsimp only
    split
    · exact reads_some hRest
    · split
      · exact reads_none
      · cases addLine headers line with
        | none => exact reads_none
        | some headers => exact ih hRest headers (total + line.length)

theorem readStart_left (hR : R.Final) (hD : R.Left w D) (hTurns : w.length < turns) :
    Reads R E (readStart env c turns) (startTaken turns w) D := by
  induction turns generalizing w D with
  | zero => omega
  | succ n ih =>
    unfold readStart startTaken
    refine Reads.bind (Source.readLine_left hR 16384 hD) (fun _ => reads_none) ?_
    rintro ⟨line, rest⟩ t hLine hRest
    have hShort := nextLine_length hLine
    dsimp only at hShort hRest ⊢
    split
    · exact ih hRest (by omega)
    · exact reads_some hRest

theorem startTaken_length {r : Text × Text} (h : startTaken turns w = some r) : r.2.length < w.length := by
  induction turns generalizing w with
  | zero => cases h
  | succ n ih =>
    obtain ⟨line, hLine, hRest⟩ := Option.bind_eq_some_iff.mp h
    have hShort := nextLine_length hLine
    split at hRest
    · exact (ih hRest).trans hShort
    · cases hRest
      exact hShort

theorem headersTaken_length {headers : List (Text × Text)} {total n : Nat} {r : List (Text × Text) × Text}
    (h : headersTaken headers total n w = some r) : r.2.length < w.length := by
  induction n generalizing headers total w with
  | zero => cases h
  | succ n ih =>
    obtain ⟨line, hLine, hRest⟩ := Option.bind_eq_some_iff.mp h
    have hShort := nextLine_length hLine
    split at hRest
    · cases hRest
      exact hShort
    · split at hRest
      · cases hRest
      · obtain ⟨headers', -, hMore⟩ := Option.bind_eq_some_iff.mp hRest
        exact (ih hMore).trans hShort

theorem withBody_left {x : NetM TlsConnection (Option Text)} {taken : Option (Text × Text)} (msg : HttpMessage)
    (h : Reads R E x taken D) :
    Reads R E (do let body ← x; return body.map fun body => { msg with body }) (msg.withBody taken) D := by
  unfold Reads
  rw [ends_bind]
  apply h.imp
  rintro a t ⟨rfl, hLeft⟩
  rw [ends_pure]
  cases taken with
  | none => exact ⟨rfl, by simp [withBody]⟩
  | some r =>
    refine ⟨rfl, fun q hq => ?_⟩
    obtain rfl := Option.some.inj hq
    exact hLeft r rfl

theorem replyTaken_left (hR : R.Final) (hEnv : ∀ tr secure, env tr (.fill c secure) ≠ .failed) (hD : R.Left w D) (hTurns : w.length < turns)
    (msg : HttpMessage) (maxBody : Nat) :
    Reads R E (readBody env c msg maxBody true turns) (replyTaken msg maxBody turns w) D := by
  have hBody := readBody_left (E := E) msg maxBody hR hD hTurns
  have hMark : Text.iinfix "chunked".toList (msg.header "Transfer-Encoding".toList) = namesChunked msg := rfl
  unfold readBody at hBody ⊢
  unfold replyTaken
  rw [hMark] at hBody ⊢
  generalize msg.header "Content-Length".toList = value at hBody ⊢
  cases hNamed : namesChunked msg with
  | true =>
    rw [hNamed] at hBody
    exact hBody
  | false =>
    rw [hNamed] at hBody
    cases value with
    | nil => exact Source.readAll_closeTaken hR hEnv maxBody hD hTurns
    | cons ch value => exact hBody

/-- What is read as a request is a function of the stream. -/
theorem readRequest_left (hR : R.Final) (hD : R.Left w D) (hTurns : w.length < turns) :
    Reads R E (readRequest env c maxBody turns) (requestTaken maxBody turns w) D := by
  unfold readRequest requestTaken
  refine Reads.bind (readStart_left hR hD hTurns) (fun _ => reads_none) ?_
  rintro ⟨line, rest⟩ t hLine hRest
  have hShort := startTaken_length hLine
  dsimp only [Option.bind_some] at hShort hRest ⊢
  cases parseRequestLine line with
  | none => exact reads_none
  | some msg =>
    refine Reads.bind (readHeaders_left hR hRest [] 0 262146) (fun _ => reads_none) ?_
    rintro ⟨headers, rest'⟩ u hHeaders hLeft
    have hLess := headersTaken_length hHeaders
    dsimp only at hLess hLeft ⊢
    exact withBody_left _ (readBody_left _ maxBody hR hLeft (by omega))

/-- What is read as a response is a function of the stream, of which its end may be a part. -/
theorem readResponse_left (hR : R.Final) (hEnv : ∀ tr secure, env tr (.fill c secure) ≠ .failed) (hD : R.Left w D) (hTurns : w.length < turns)
    (headRequest : Bool) {n : Nat} (hn : w.length < n) :
    Reads R E (readResponse env c headRequest maxBody turns n) (responseTaken headRequest maxBody turns n w) D := by
  induction n generalizing w D with
  | zero => omega
  | succ n ih =>
    unfold readResponse responseTaken
    refine Reads.bind (Source.readLine_left hR 16384 hD) (fun _ => reads_none) ?_
    rintro ⟨line, rest⟩ t hLine hRest
    have hShort := nextLine_length hLine
    dsimp only [Option.bind_some] at hShort hRest ⊢
    cases parseStatusLine line with
    | none => exact reads_none
    | some msg =>
      refine Reads.bind (readHeaders_left hR hRest [] 0 262146) (fun _ => reads_none) ?_
      rintro ⟨headers, rest'⟩ u hHeaders hLeft
      have hLess := headersTaken_length hHeaders
      dsimp only at hLess hLeft ⊢
      split
      · exact ih hLeft (by omega) (by omega)
      · split
        · exact reads_some hLeft
        · exact withBody_left _ (replyTaken_left hR hEnv hLeft (by omega) _ maxBody)

end Reading

end HttpMessage

namespace HttpMessage

/-! ## The headers that are written -/

section Headers

variable {msg : HttpMessage} {name other value : Text}

theorem header_setHeader (hName : Text.iequals name name = true) : (msg.setHeader name value).header name = value := by
  have hNone : (msg.headers.filter fun h => !Text.iequals h.1 name).find? (fun h => Text.iequals h.1 name) = none := by
    apply List.find?_eq_none.mpr
    intro h hMem
    simpa using (List.mem_filter.mp hMem).2
  unfold header setHeader addHeader removeHeader
  rw [List.find?_append, hNone, Option.none_or]
  simp [hName]

theorem iequals_of_set {key : Text} (hKey : Text.iequals key name = true) :
    Text.iequals key other = Text.iequals name other := by
  have hSame : Text.lower key = Text.lower name := of_decide_eq_true hKey
  rw [Text.iequals, hSame]
  rfl

theorem hasHeader_setHeader :
    (msg.setHeader name value).hasHeader other = (Text.iequals name other || msg.hasHeader other) := by
  unfold hasHeader setHeader addHeader removeHeader
  rw [List.any_append, List.any_cons, List.any_nil, Bool.or_false, Bool.or_comm]
  cases hOther : Text.iequals name other with
  | true => rfl
  | false =>
    rw [Bool.false_or, Bool.false_or, List.any_filter]
    refine congrArg (msg.headers.any ·) (funext fun h => ?_)
    cases hKey : Text.iequals h.1 name with
    | true => rw [iequals_of_set hKey, hOther, Bool.and_false]
    | false => rfl

theorem header_setHeader_ne (hOther : Text.iequals name other = false) :
    (msg.setHeader name value).header other = msg.header other := by
  unfold header setHeader addHeader removeHeader
  rw [List.find?_append, List.find?_filter, List.find?_cons_of_neg (by simp [hOther]), List.find?_nil, Option.or_none]
  have hSame : (fun h : Text × Text => !Text.iequals h.1 name && Text.iequals h.1 other) =
      fun h => Text.iequals h.1 other := by
    funext h
    cases hKey : Text.iequals h.1 name with
    | true => rw [iequals_of_set hKey, hOther, Bool.and_false]
    | false => rfl
  rw [← hSame]
  simp

theorem header_eq_nil (h : msg.hasHeader name = false) : msg.header name = [] := by
  have hNone : msg.headers.find? (fun h => Text.iequals h.1 name) = none := by
    apply List.find?_eq_none.mpr
    simpa [hasHeader] using h
  rw [header, hNone]
  rfl

/-- The body's length is not among the headers that are written: they give another for it. -/
def KeepsLength (msg : HttpMessage) : Prop := msg.body = [] ∧ msg.hasHeader "Content-Length".toList = true

instance (msg : HttpMessage) : Decidable (KeepsLength msg) := inferInstanceAs (Decidable (_ ∧ _))

theorem withLength_eq (h : msg.hasHeader "Transfer-Encoding".toList = false) : msg.withLength =
    if KeepsLength msg then msg else msg.setHeader "Content-Length".toList (Text.ofInt msg.body.length) := by
  have hKeeps : KeepsLength msg ↔ (msg.body.isEmpty && msg.hasHeader "Content-Length".toList) = true := by
    rw [Bool.and_eq_true, List.isEmpty_iff]
    exact Iff.rfl
  unfold withLength
  rw [h, if_congr hKeeps rfl rfl]
  cases msg.body.isEmpty && msg.hasHeader "Content-Length".toList <;> rfl

theorem namesChunked_withLength (h : msg.hasHeader "Transfer-Encoding".toList = false) :
    msg.withLength.namesChunked = false := by
  have hNames : Text.iequals "Content-Length".toList "Transfer-Encoding".toList = false := by decide +kernel
  have hNone : msg.withLength.hasHeader "Transfer-Encoding".toList = false := by
    rw [withLength_eq h]
    split
    · exact h
    · rw [hasHeader_setHeader, hNames, h]
      rfl
  rw [namesChunked, header_eq_nil hNone]
  decide +kernel

theorem length_withLength (h : msg.hasHeader "Transfer-Encoding".toList = false) :
    msg.withLength.header "Content-Length".toList =
      if KeepsLength msg then msg.header "Content-Length".toList else Text.ofInt msg.body.length := by
  have hName : Text.iequals "Content-Length".toList "Content-Length".toList = true := by decide +kernel
  rw [withLength_eq h]
  split
  · rfl
  · exact header_setHeader hName

end Headers

end HttpMessage

namespace Text

theorem isDigits_ofInt (n : Nat) : IsDigits 10 (ofInt n) := by
  obtain ⟨c, s, hEq, -⟩ := ofInt_cons n
  exact ⟨by rw [hEq]; simp, fun d hd => (digitValue_of_isDigit (isDigit_of_mem hd)).2⟩

end Text

namespace HttpMessage

/-! ## The bodies that are read back -/

section Bodies

variable {msg m : HttpMessage} {maxBody turns n : Nat} {rest r value body : Text}

theorem lengthTaken_ofInt (hSize : body.length < 2 ^ 64) :
    lengthTaken (Text.ofInt body.length) maxBody (body ++ rest) = some (body, r) ↔
      body.length ≤ maxBody ∧ r = rest := by
  have hNe := (Text.isDigits_ofInt body.length).ne
  unfold lengthTaken
  rw [List.isEmpty_eq_false_iff.mpr hNe, if_neg Bool.false_ne_true, Text.wholeNumber_ofInt hSize]
  dsimp only
  by_cases hFits : body.length ≤ maxBody
  · rw [if_neg (Nat.not_lt.mpr hFits), List.take_left, List.drop_left, if_pos (by simp [sameInt])]
    simp [hFits, eq_comm]
  · rw [if_pos (Nat.not_le.mp hFits)]
    simp [hFits]

/-- The length that comes with an empty body is none, or no byte follows and an `int` does not tell it from none. -/
def EmptyLength (maxBody : Nat) (rest value : Text) : Prop :=
  ∃ n ≤ maxBody, Text.wholeNumber 10 value = some n ∧ (n = 0 ∨ rest = [] ∧ n % 2 ^ 32 = 0)

theorem lengthTaken_empty :
    lengthTaken value maxBody rest = some ([], r) ↔ EmptyLength maxBody rest value ∧ r = rest := by
  have hNil : Text.wholeNumber 10 [] = some 0 := by decide +kernel
  rw [lengthTaken_iff]
  constructor
  · rintro (⟨rfl, -, rfl⟩ | ⟨-, n, ⟨hn, hMax, hSame⟩, hTake, rfl⟩)
    · exact ⟨⟨0, Nat.zero_le maxBody, hNil, .inl rfl⟩, rfl⟩
    · rcases List.take_eq_nil_iff.mp hTake.symm with rfl | rfl
      · exact ⟨⟨0, hMax, hn, .inl rfl⟩, rfl⟩
      · refine ⟨⟨n, hMax, hn, .inr ⟨rfl, ?_⟩⟩, List.drop_nil⟩
        simpa [sameInt, eq_comm] using hSame
  · rintro ⟨⟨n, hMax, hn, hNone⟩, rfl⟩
    by_cases hValue : value = []
    · exact .inl ⟨hValue, rfl, rfl⟩
    · refine .inr ⟨hValue, n, ⟨hn, hMax, ?_⟩, ?_, ?_⟩
      · rcases hNone with rfl | ⟨rfl, hZero⟩ <;> simp_all [sameInt]
      · rcases hNone with rfl | ⟨rfl, -⟩ <;> simp
      · rcases hNone with rfl | ⟨rfl, -⟩ <;> simp

/-- A reader that does not go on to the end of the stream takes the body back. -/
def RequestBodyFits (maxBody : Nat) (msg : HttpMessage) (rest : Text) : Prop :=
  if KeepsLength msg then EmptyLength maxBody rest (msg.header "Content-Length".toList)
  else msg.body.length ≤ maxBody

/-- A reader that goes on to the end of the stream, where there is no length, takes the body back. -/
def ResponseBodyFits (maxBody : Nat) (msg : HttpMessage) (rest : Text) : Prop :=
  if KeepsLength msg ∧ msg.header "Content-Length".toList = [] then rest = []
  else RequestBodyFits maxBody msg rest

theorem bodyTaken_written (hSize : msg.body.length < 2 ^ 64) (h : msg.hasHeader "Transfer-Encoding".toList = false)
    (hm : m.headers = msg.withLength.headers) :
    bodyTaken m maxBody turns (msg.body ++ rest) = some (msg.body, r) ↔ RequestBodyFits maxBody msg rest ∧ r = rest := by
  have hNamed : m.namesChunked = msg.withLength.namesChunked := by
    unfold namesChunked header
    rw [hm]
  have hLength : m.header "Content-Length".toList = msg.withLength.header "Content-Length".toList := by
    unfold header
    rw [hm]
  unfold bodyTaken RequestBodyFits
  rw [hNamed, namesChunked_withLength h, if_neg Bool.false_ne_true, hLength, length_withLength h]
  by_cases hKeeps : KeepsLength msg
  · rw [if_pos hKeeps, if_pos hKeeps, hKeeps.1]
    exact lengthTaken_empty
  · rw [if_neg hKeeps, if_neg hKeeps]
    exact lengthTaken_ofInt hSize

theorem replyTaken_written (hSize : msg.body.length < 2 ^ 64) (h : msg.hasHeader "Transfer-Encoding".toList = false)
    (hm : m.headers = msg.withLength.headers) :
    replyTaken m maxBody turns (msg.body ++ rest) = some (msg.body, r) ↔
      ResponseBodyFits maxBody msg rest ∧ r = rest := by
  have hNamed : m.namesChunked = msg.withLength.namesChunked := by
    unfold namesChunked header
    rw [hm]
  have hLength : m.header "Content-Length".toList = msg.withLength.header "Content-Length".toList := by
    unfold header
    rw [hm]
  unfold replyTaken ResponseBodyFits
  rw [hNamed, namesChunked_withLength h, hLength, length_withLength h]
  by_cases hKeeps : KeepsLength msg
  · rw [if_pos hKeeps]
    by_cases hNone : msg.header "Content-Length".toList = []
    · rw [hNone, if_pos (show (!false && ([] : Text).isEmpty) = true from rfl), if_pos ⟨hKeeps, rfl⟩, hKeeps.1, List.nil_append, Source.closeTaken]
      constructor
      · intro hTaken
        split at hTaken
        · cases hTaken
          exact ⟨rfl, rfl⟩
        · cases hTaken
      · rintro ⟨rfl, rfl⟩
        exact if_pos (Nat.zero_le maxBody)
    · rw [List.isEmpty_eq_false_iff.mpr hNone, if_neg (c := KeepsLength msg ∧ _) fun hBoth => hNone hBoth.2]
      exact bodyTaken_written hSize h hm
  · have hNe := (Text.isDigits_ofInt msg.body.length).ne
    rw [if_neg hKeeps, List.isEmpty_eq_false_iff.mpr hNe, if_neg (c := KeepsLength msg ∧ _) fun hBoth => hKeeps hBoth.1]
    exact bodyTaken_written hSize h hm

end Bodies

/-! ## The headers that are read back -/

section Lines

variable {headers hs : List (Text × Text)} {total n turns : Nat} {w rest line : Text} {msg m : HttpMessage}

theorem nextLine_unbroken {maxLen : Nat} (h : Source.nextLine maxLen w = some (line, rest)) : '\n' ∉ line := by
  obtain ⟨raw, -, hRaw, -, rfl⟩ := nextLine_eq_some.mp h
  unfold TlsConnection.stripReturn
  split
  · exact fun hMem => hRaw (List.dropLast_subset raw hMem)
  · exact hRaw

/-- The header lines are taken up to the empty line. The turns outnumber the bytes that may be left. -/
theorem headersTaken_lines {lines : List Text} (hLines : ∀ line ∈ lines, '\n' ∉ line ∧ line ≠ [])
    (hTotal : total ≤ 256 * 1024) (hn : 262146 ≤ n + total) :
    headersTaken headers total n (lines.flatMap (· ++ Text.crlf) ++ Text.crlf ++ rest) =
      (parseHeaders headers total lines).map fun hs => (hs, rest) := by
  induction lines generalizing headers total n with
  | nil =>
    obtain ⟨m, rfl⟩ : ∃ m, n = m + 1 := ⟨n - 1, by omega⟩
    have hEnd : Source.nextLine 16384 ([] ++ Text.crlf ++ rest) = some ([], rest) := by
      rw [Source.nextLine_crlf List.not_mem_nil, if_pos (by decide)]
    unfold headersTaken
    rw [List.flatMap_nil, hEnd]
    rfl
  | cons line lines ih =>
    obtain ⟨m, rfl⟩ : ∃ m, n = m + 1 := ⟨n - 1, by omega⟩
    obtain ⟨hBreak, hEmpty⟩ := hLines line List.mem_cons_self
    have hWire : (line :: lines).flatMap (· ++ Text.crlf) ++ Text.crlf ++ rest =
        line ++ Text.crlf ++ (lines.flatMap (· ++ Text.crlf) ++ Text.crlf ++ rest) := by simp
    have hPos : 0 < line.length := List.length_pos_iff.mpr hEmpty
    unfold headersTaken parseHeaders
    rw [hWire, Source.nextLine_crlf hBreak]
    by_cases hShort : line.length < 16384
    · rw [if_pos hShort, Option.bind_some]
      dsimp only
      rw [List.isEmpty_eq_false_iff.mpr hEmpty, if_neg Bool.false_ne_true]
      by_cases hFits : total + line.length ≤ 256 * 1024 ∧ headers.length ≤ 200
      · rw [if_neg (by omega), if_pos ⟨hShort, hFits⟩]
        cases addLine headers line with
        | none => rfl
        | some headers =>
          rw [Option.bind_some, Option.bind_some]
          exact ih (fun l hl => hLines l (List.mem_cons_of_mem line hl)) hFits.1 (by omega)
      · rw [if_pos (by omega), if_neg (by tauto)]
        rfl
    · rw [if_neg hShort, if_neg (by tauto)]
      rfl

/-- No header has a line break. -/
def Unbroken (hs : List (Text × Text)) : Prop := ∀ h ∈ hs, Text.hasBreak h.1 = false ∧ Text.hasBreak h.2 = false

/-- Each header is taken for itself, and there are not too many. -/
structure HeadersFit (hs : List (Text × Text)) : Prop where
  each : ∀ h ∈ hs, HeaderFits h
  count : hs.length ≤ 201
  total : (hs.map fun h => (headerLine h).length).sum ≤ 256 * 1024

theorem not_mem_of_hasBreak (h : Text.hasBreak line = false) : '\r' ∉ line ∧ '\n' ∉ line := by
  simpa [Text.hasBreak] using h

theorem headersTaken_written (h : Unbroken hs) :
    headersTaken [] 0 262146 ((hs.flatMap fun h => headerLine h ++ Text.crlf) ++ Text.crlf ++ rest) =
      (parseHeaders [] 0 (hs.map headerLine)).map fun hs => (hs, rest) := by
  have hLines : ∀ line ∈ hs.map headerLine, '\n' ∉ line ∧ line ≠ [] := by
    intro line hLine
    obtain ⟨q, hq, rfl⟩ := List.mem_map.mp hLine
    have hName := (not_mem_of_hasBreak (h q hq).1).2
    have hValue := (not_mem_of_hasBreak (h q hq).2).2
    rw [headerLine_cons]
    simp [hName, hValue]
  rw [← headersTaken_lines hLines (Nat.zero_le _) (Nat.le_refl _), List.flatMap_map]

/-- A message is taken back if its headers and its body are. -/
theorem messageTaken_iff (msg : HttpMessage) (take : HttpMessage → Text → Option (Text × Text)) {body r : Text}
    (h : Unbroken hs) :
    ((headersTaken [] 0 262146 ((hs.flatMap fun h => headerLine h ++ Text.crlf) ++ Text.crlf ++ rest)).bind fun q =>
        let msg := { msg with headers := q.1 }
        msg.withBody (take msg q.2)) = some ({ msg with headers := hs, body := body }, r) ↔
      HeadersFit hs ∧ take { msg with headers := hs } rest = some (body, r) := by
  have hFit : parseHeaders [] 0 (hs.map headerLine) = some hs ↔ HeadersFit hs := by
    have hRaw : parseHeaders [] 0 (hs.map headerLine) = some ([] ++ hs) ↔ _ :=
      parseHeaders_iff (Nat.zero_le 201) (Nat.zero_le _)
    refine hRaw.trans ?_
    rw [List.length_nil, Nat.zero_add, Nat.zero_add]
    exact ⟨fun hAll => ⟨hAll.1, hAll.2.1, hAll.2.2⟩, fun hAll => ⟨hAll.each, hAll.count, hAll.total⟩⟩
  rw [headersTaken_written h, ← hFit]
  cases hParse : parseHeaders [] 0 (hs.map headerLine) with
  | none => simp
  | some hs' =>
    rw [Option.map_some, Option.bind_some]
    dsimp only
    constructor
    · intro hTaken
      obtain ⟨q, hq, hEq⟩ := Option.map_eq_some_iff.mp hTaken
      obtain ⟨hMsg, hRest⟩ := Prod.mk.inj hEq
      obtain rfl : hs' = hs := congrArg HttpMessage.headers hMsg
      obtain rfl : q.1 = body := congrArg HttpMessage.body hMsg
      exact ⟨rfl, by rw [hq, ← hRest]⟩
    · rintro ⟨hSame, hTaken⟩
      obtain rfl := Option.some.inj hSame
      rw [withBody, hTaken]
      rfl

end Lines

/-! ## Requests -/

section Requests

variable {msg m : HttpMessage} {maxBody turns n : Nat} {w rest r line : Text}

theorem withLength_body (msg : HttpMessage) : msg.withLength.body = msg.body := by
  unfold withLength
  split <;> rfl

theorem wire_append (startLine : Text) (msg : HttpMessage) (rest : Text) : wire startLine msg.withLength ++ rest =
    startLine ++ Text.crlf ++ ((msg.withLength.headers.flatMap fun h => headerLine h ++ Text.crlf) ++ Text.crlf ++
      (msg.body ++ rest)) := by
  rw [wire, withLength_body]
  simp

/-- What `gxsHTTPWriteRequest` sends. -/
def requestText (msg : HttpMessage) : Text := wire msg.requestLine msg.withLength

/-- The line breaks that `gxsHTTPWriteRequest` refuses are not there. -/
structure RequestWritten (msg : HttpMessage) : Prop where
  method : Text.hasBreak msg.method = false
  target : Text.hasBreak msg.target = false
  headers : Unbroken msg.withLength.headers

def targetOf (msg : HttpMessage) : Text := if msg.target.isEmpty then "/".toList else msg.target

/-- What a request is read as: a status and a reason are not sent. -/
def requestRead (msg : HttpMessage) : HttpMessage :=
  { method := msg.method, target := msg.targetOf, version := msg.version,
    headers := msg.withLength.headers, body := msg.body }

/-- The line of a request is taken apart into its three words again. -/
structure RequestLineFits (msg : HttpMessage) : Prop where
  method : msg.method ≠ [] ∧ ' ' ∉ msg.method
  target : ' ' ∉ msg.target
  version : Text.startsWith msg.version "HTTP/".toList = true ∧ ' ' ∉ msg.version ∧ '\n' ∉ msg.version
  short : msg.requestLine.length < 16384

structure RequestFits (maxBody : Nat) (msg : HttpMessage) (rest : Text) : Prop where
  line : RequestLineFits msg
  headers : HeadersFit msg.withLength.headers
  body : RequestBodyFits maxBody msg rest

theorem startTaken_unbroken (h : startTaken turns w = some (line, rest)) : '\n' ∉ line := by
  induction turns generalizing w with
  | zero => cases h
  | succ n ih =>
    obtain ⟨q, hLine, hRest⟩ := Option.bind_eq_some_iff.mp h
    split at hRest
    · exact ih hRest
    · cases hRest
      exact nextLine_unbroken hLine

theorem startTaken_crlf (hLine : '\n' ∉ line) (hNe : line ≠ []) (hTurns : 0 < turns) :
    startTaken turns (line ++ Text.crlf ++ rest) = if line.length < 16384 then some (line, rest) else none := by
  obtain ⟨n, rfl⟩ : ∃ n, turns = n + 1 := ⟨turns - 1, by omega⟩
  unfold startTaken
  rw [Source.nextLine_crlf hLine]
  split
  · rw [Option.bind_some, List.isEmpty_eq_false_iff.mpr hNe, if_neg Bool.false_ne_true]
  · rfl

theorem startsWith_ne_nil {s : Text} (h : Text.startsWith s "HTTP/".toList = true) : s ≠ [] := by
  rintro rfl
  revert h
  decide

theorem parseRequestLine_some (h : parseRequestLine line = some m) :
    m.method ≠ [] ∧ ' ' ∉ m.method ∧ ' ' ∉ m.target ∧ Text.startsWith m.version "HTTP/".toList = true ∧
      ' ' ∉ m.version ∧ ∀ c ∈ m.version, c ∈ line := by
  unfold parseRequestLine at h
  split at h
  · next method target version hSplit =>
    split at h
    · next hStart =>
      have hField (f : Text) (hf : f ∈ [method, target, version]) : f ≠ [] ∧ ' ' ∉ f ∧ ∀ c ∈ f, c ∈ line := by
        rw [← hSplit] at hf
        obtain ⟨hMem, hNe⟩ := List.mem_filter.mp hf
        exact ⟨by simpa using hNe, Text.mem_splitOn hMem⟩
      cases h
      obtain ⟨hNe, hMethod, -⟩ := hField method (by simp)
      obtain ⟨-, hTarget, -⟩ := hField target (by simp)
      obtain ⟨-, hVersion, hSub⟩ := hField version (by simp)
      exact ⟨hNe, hMethod, hTarget, hStart, hVersion, hSub⟩
    · cases h
  · cases h

theorem parseRequestLine_requestLine (h : RequestLineFits msg) : parseRequestLine msg.requestLine =
    some { method := msg.method, target := msg.targetOf, version := msg.version } := by
  have hTarget : msg.targetOf ≠ [] ∧ ' ' ∉ msg.targetOf := by
    unfold targetOf
    split
    · decide
    · next hNe => exact ⟨by simpa using hNe, h.target⟩
  have hSplit := Text.split_three h.method hTarget ⟨startsWith_ne_nil h.version.1, h.version.2.1⟩
  have hLine : msg.requestLine = msg.method ++ " ".toList ++ msg.targetOf ++ " ".toList ++ msg.version := rfl
  unfold parseRequestLine
  rw [hLine, hSplit]
  exact if_pos h.version.1

theorem requestLine_unbroken (h : RequestWritten msg) (hVersion : '\n' ∉ msg.version) : '\n' ∉ msg.requestLine := by
  have hMethod := (not_mem_of_hasBreak h.method).2
  have hTarget := (not_mem_of_hasBreak h.target).2
  unfold requestLine
  split <;> simp [hMethod, hTarget, hVersion]

theorem requestLine_ne_nil (msg : HttpMessage) : msg.requestLine ≠ [] := by
  unfold requestLine
  split <;> simp

/-- A request is taken back with what follows it left exactly if it fits. -/
theorem requestTaken_iff (h : RequestWritten msg) (hCoding : msg.hasHeader "Transfer-Encoding".toList = false)
    (hSize : msg.body.length < 2 ^ 64) (hTurns : 0 < turns) :
    requestTaken maxBody turns (requestText msg ++ rest) = some (requestRead msg, r) ↔
      RequestFits maxBody msg rest ∧ r = rest := by
  have hWire := wire_append msg.requestLine msg rest
  have hBody (m : HttpMessage) (hm : m.headers = msg.withLength.headers) :=
    @bodyTaken_written msg m maxBody turns rest r hSize hCoding hm
  have hFrom (hLine : RequestLineFits msg) :
      requestTaken maxBody turns (requestText msg ++ rest) = some (requestRead msg, r) ↔
        HeadersFit msg.withLength.headers ∧ RequestBodyFits maxBody msg rest ∧ r = rest := by
    have hUnbroken := requestLine_unbroken h hLine.version.2.2
    unfold requestTaken requestText
    rw [hWire, startTaken_crlf hUnbroken (requestLine_ne_nil msg) hTurns, if_pos hLine.short, Option.bind_some]
    dsimp only
    rw [parseRequestLine_requestLine hLine, Option.bind_some, ← hBody _ rfl]
    exact messageTaken_iff _ (fun m => bodyTaken m maxBody turns) h.headers
  constructor
  · intro hTaken
    obtain ⟨⟨line, rest'⟩, hStart, hMore⟩ := Option.bind_eq_some_iff.mp hTaken
    obtain ⟨m, hm, hLater⟩ := Option.bind_eq_some_iff.mp hMore
    obtain ⟨q, -, hLast⟩ := Option.bind_eq_some_iff.mp hLater
    obtain ⟨b, -, hEq⟩ := Option.map_eq_some_iff.mp hLast
    have hMsg := (Prod.mk.inj hEq).1
    obtain ⟨hNe, hMethod, hTarget, hVersion, hBlank, hSub⟩ := parseRequestLine_some hm
    have hSameMethod : m.method = msg.method := (congrArg HttpMessage.method hMsg :)
    have hSameTarget : m.target = msg.targetOf := (congrArg HttpMessage.target hMsg :)
    have hSameVersion : m.version = msg.version := (congrArg HttpMessage.version hMsg :)
    rw [hSameMethod] at hNe hMethod
    rw [hSameTarget] at hTarget
    rw [hSameVersion] at hVersion hBlank hSub
    have hBreak : '\n' ∉ msg.version := fun hMem => startTaken_unbroken hStart (hSub '\n' hMem)
    have hShort : msg.requestLine.length < 16384 := by
      by_contra hLong
      unfold requestText at hStart
      rw [hWire, startTaken_crlf (requestLine_unbroken h hBreak) (requestLine_ne_nil msg) hTurns, if_neg hLong] at hStart
      cases hStart
    have hBlanks : ' ' ∉ msg.target := by
      unfold targetOf at hTarget
      split at hTarget
      · next hNil =>
        rw [List.isEmpty_iff.mp hNil]
        exact List.not_mem_nil
      · exact hTarget
    have hLine : RequestLineFits msg := ⟨⟨hNe, hMethod⟩, hBlanks, ⟨hVersion, hBlank, hBreak⟩, hShort⟩
    obtain ⟨hHeaders, hBody, hRest⟩ := (hFrom hLine).mp hTaken
    exact ⟨⟨hLine, hHeaders, hBody⟩, hRest⟩
  · rintro ⟨hFits, hRest⟩
    exact (hFrom hFits.line).mpr ⟨hFits.headers, hFits.body, hRest⟩

end Requests

/-! ## Responses -/

section Responses

variable {msg m : HttpMessage} {headRequest : Bool} {maxBody turns n : Nat} {w rest r line : Text}

/-- What `gxsHTTPWriteResponse` sends. -/
def responseText (msg : HttpMessage) : Text := wire msg.statusLine msg.withLength

/-- The line breaks that `gxsHTTPWriteResponse` refuses are not there. -/
structure ResponseWritten (msg : HttpMessage) : Prop where
  reason : Text.hasBreak msg.reasonOf = false
  headers : Unbroken msg.withLength.headers

/-- What a response is read as: a method and a target are not sent. -/
def responseRead (msg : HttpMessage) : HttpMessage :=
  { version := msg.version, status := msg.status, reason := msg.reasonOf,
    headers := msg.withLength.headers, body := msg.body }

/-- The line of a response is taken apart again, and is not that of an interim response. -/
structure StatusLineFits (msg : HttpMessage) : Prop where
  version : Text.startsWith msg.version "HTTP/".toList = true ∧ ' ' ∉ msg.version ∧ '\n' ∉ msg.version
  status : 200 ≤ msg.status ∧ msg.status ≤ 999
  short : msg.statusLine.length < 16384

/-- The reader expects no body. -/
def Bodiless (headRequest : Bool) (status : Int) : Prop := headRequest ∨ status = 204 ∨ status = 304

instance (headRequest : Bool) (status : Int) : Decidable (Bodiless headRequest status) :=
  inferInstanceAs (Decidable (_ ∨ _))

structure ResponseFits (headRequest : Bool) (maxBody : Nat) (msg : HttpMessage) (rest : Text) : Prop where
  line : StatusLineFits msg
  headers : HeadersFit msg.withLength.headers
  body : if Bodiless headRequest msg.status then msg.body = [] else ResponseBodyFits maxBody msg rest

theorem parseStatusLine_some (h : parseStatusLine line = some m) :
    Text.startsWith m.version "HTTP/".toList = true ∧ ' ' ∉ m.version ∧ (∀ c ∈ m.version, c ∈ line) ∧
      m.status ≤ 999 := by
  unfold parseStatusLine at h
  split at h
  · next hStart =>
    dsimp only at h
    split at h
    · cases h
    · next hStatus =>
      cases h
      obtain ⟨t, ht⟩ := List.isPrefixOf_iff_prefix.mp hStart.1
      have hAll : ∀ c ∈ "HTTP/".toList, decide (c ≠ ' ') = true := by simp
      have hHigh : Text.atoi ((line.dropWhile (· ≠ ' ')).drop 1) ≤ 999 := by omega
      refine ⟨?_, ?_, fun c hc => (List.takeWhile_subset _) hc, hHigh⟩
      · apply List.isPrefixOf_iff_prefix.mpr
        dsimp only
        rw [← ht, List.takeWhile_append_of_pos hAll]
        exact List.prefix_append _ _
      · intro hMem
        have hNot := List.mem_takeWhile_imp hMem
        simp at hNot
  · cases h

theorem responseTaken_some {q : HttpMessage × Text} (h : responseTaken headRequest maxBody turns n w = some q) :
    Text.startsWith q.1.version "HTTP/".toList = true ∧ ' ' ∉ q.1.version ∧ '\n' ∉ q.1.version ∧
      200 ≤ q.1.status ∧ q.1.status ≤ 999 := by
  induction n generalizing w with
  | zero => cases h
  | succ n ih =>
    obtain ⟨⟨line, rest⟩, hLine, hMore⟩ := Option.bind_eq_some_iff.mp h
    obtain ⟨m, hm, hLater⟩ := Option.bind_eq_some_iff.mp hMore
    obtain ⟨hs, -, hLast⟩ := Option.bind_eq_some_iff.mp hLater
    obtain ⟨hStart, hBlank, hSub, hHigh⟩ := parseStatusLine_some hm
    have hBreak : '\n' ∉ m.version := fun hMem => nextLine_unbroken hLine (hSub '\n' hMem)
    dsimp only at hLast
    split at hLast
    · exact ih hLast
    · next hLow =>
      have hLow : 200 ≤ m.status := Int.not_lt.mp hLow
      split at hLast
      · cases hLast
        exact ⟨hStart, hBlank, hBreak, hLow, hHigh⟩
      · obtain ⟨b, -, rfl⟩ := Option.map_eq_some_iff.mp hLast
        exact ⟨hStart, hBlank, hBreak, hLow, hHigh⟩

theorem statusLine_eq (msg : HttpMessage) :
    msg.statusLine = msg.version ++ ' ' :: (Text.ofInt msg.status ++ ' ' :: msg.reasonOf) := by
  simp [statusLine]

theorem parseStatusLine_statusLine (h : StatusLineFits msg) : parseStatusLine msg.statusLine =
    some { version := msg.version, status := msg.status, reason := msg.reasonOf } := by
  obtain ⟨k, hk⟩ := Int.eq_ofNat_of_zero_le (Int.le_trans (by decide) h.status.1)
  obtain ⟨t, ht⟩ := List.isPrefixOf_iff_prefix.mp h.version.1
  have hStart : Text.startsWith msg.statusLine "HTTP/".toList = true := by
    apply List.isPrefixOf_iff_prefix.mpr
    rw [statusLine_eq, ← ht, List.append_assoc]
    exact List.prefix_append _ _
  have hVersion : ∀ c ∈ msg.version, decide (c ≠ ' ') = true := by
    intro c hc
    exact decide_eq_true fun hEq => h.version.2.1 (hEq ▸ hc)
  have hDigits : ∀ c ∈ Text.ofInt msg.status, decide (c ≠ ' ') = true := by
    intro c hc
    rw [hk] at hc
    exact decide_eq_true (Text.ne_of_isDigit (Text.isDigit_of_mem hc) rfl)
  have hTake : msg.statusLine.takeWhile (· ≠ ' ') = msg.version := by
    rw [statusLine_eq, List.takeWhile_append_of_pos hVersion, List.takeWhile_cons_of_neg (by simp), List.append_nil]
  have hDrop : (msg.statusLine.dropWhile (· ≠ ' ')).drop 1 = Text.ofInt msg.status ++ ' ' :: msg.reasonOf := by
    rw [statusLine_eq, List.dropWhile_append_of_pos hVersion, List.dropWhile_cons_of_neg (by simp)]
    rfl
  have hReason : ((Text.ofInt msg.status ++ ' ' :: msg.reasonOf).dropWhile (· ≠ ' ')).drop 1 = msg.reasonOf := by
    rw [List.dropWhile_append_of_pos hDigits, List.dropWhile_cons_of_neg (by simp)]
    rfl
  have hStatus : Text.atoi (Text.ofInt msg.status ++ ' ' :: msg.reasonOf) = msg.status := by
    rw [hk]
    exact Text.atoi_ofInt k msg.reasonOf
  have hBlank : msg.statusLine.contains ' ' = true := by
    rw [statusLine_eq]
    simp
  have hRange := h.status
  unfold parseStatusLine
  rw [if_pos ⟨hStart, hBlank⟩, hTake, hDrop]
  dsimp only
  rw [hReason, hStatus]
  exact if_neg (by omega)

theorem statusLine_unbroken (h : ResponseWritten msg) (hVersion : '\n' ∉ msg.version) (hStatus : 0 ≤ msg.status) :
    '\n' ∉ msg.statusLine := by
  obtain ⟨k, hk⟩ := Int.eq_ofNat_of_zero_le hStatus
  have hDigits : '\n' ∉ Text.ofInt msg.status := by
    rw [hk]
    intro hMem
    exact absurd (Text.isDigit_of_mem hMem) (by decide)
  have hReason := (not_mem_of_hasBreak h.reason).2
  rw [statusLine_eq]
  simp [hVersion, hDigits, hReason]

/-- A response is taken back with what follows it left exactly if it fits. -/
theorem responseTaken_iff (h : ResponseWritten msg) (hCoding : msg.hasHeader "Transfer-Encoding".toList = false)
    (hSize : msg.body.length < 2 ^ 64) (hn : 0 < n) :
    responseTaken headRequest maxBody turns n (responseText msg ++ rest) = some (responseRead msg, r) ↔
      ResponseFits headRequest maxBody msg rest ∧ r = rest := by
  obtain ⟨n, rfl⟩ : ∃ k, n = k + 1 := ⟨n - 1, by omega⟩
  have hWire := wire_append msg.statusLine msg rest
  let take : HttpMessage → Text → Option (Text × Text) := fun m w =>
    if Bodiless headRequest m.status then some ([], w) else replyTaken m maxBody turns w
  have hFrom (hLine : StatusLineFits msg) :
      responseTaken headRequest maxBody turns (n + 1) (responseText msg ++ rest) = some (responseRead msg, r) ↔
        HeadersFit msg.withLength.headers ∧
          (if Bodiless headRequest msg.status then msg.body = [] else ResponseBodyFits maxBody msg rest) ∧ r = rest := by
    have hNonneg : 0 ≤ msg.status := Int.le_trans (by decide) hLine.status.1
    have hUnbroken := statusLine_unbroken h hLine.version.2.2 hNonneg
    have hMessage := @messageTaken_iff msg.withLength.headers (msg.body ++ rest)
      { version := msg.version, status := msg.status, reason := msg.reasonOf } take msg.body r h.headers
    unfold responseTaken responseText
    rw [hWire, Source.nextLine_crlf hUnbroken, if_pos hLine.short, Option.bind_some]
    dsimp only
    rw [parseStatusLine_statusLine hLine, Option.bind_some]
    refine Iff.trans (Eq.congr_left (congrArg _ (funext fun q => ?_))) (hMessage.trans (and_congr_right' ?_))
    · dsimp only [take]
      rw [if_neg (Int.not_lt.mpr hLine.status.1)]
      by_cases hNone : headRequest = true ∨ msg.status = 204 ∨ msg.status = 304
      · rw [if_pos hNone, if_pos (c := Bodiless _ msg.status) hNone]
        rfl
      · rw [if_neg hNone, if_neg (c := Bodiless _ msg.status) hNone]
    · by_cases hNone : Bodiless headRequest msg.status
      · have hTake : take { responseRead msg with body := [] } (msg.body ++ rest) = some ([], msg.body ++ rest) :=
          if_pos hNone
        rw [if_pos hNone]
        refine (Eq.congr_left hTake).trans ?_
        constructor
        · intro hEq
          obtain ⟨hBody, rfl⟩ := Prod.mk.inj (Option.some.inj hEq)
          exact ⟨hBody.symm, by rw [← hBody, List.nil_append]⟩
        · rintro ⟨hBody, rfl⟩
          rw [hBody, List.nil_append]
      · have hTake : take { responseRead msg with body := [] } (msg.body ++ rest) =
            replyTaken { responseRead msg with body := [] } maxBody turns (msg.body ++ rest) := if_neg hNone
        rw [if_neg hNone]
        exact (Eq.congr_left hTake).trans (replyTaken_written hSize hCoding rfl)
  constructor
  · intro hTaken
    obtain ⟨hStart, hBlank, hBreak, hLow, hHigh⟩ := responseTaken_some hTaken
    have hStart : Text.startsWith msg.version "HTTP/".toList = true := hStart
    have hBlank : ' ' ∉ msg.version := hBlank
    have hBreak : '\n' ∉ msg.version := hBreak
    have hLow : 200 ≤ msg.status := hLow
    have hHigh : msg.status ≤ 999 := hHigh
    have hUnbroken := statusLine_unbroken h hBreak (Int.le_trans (by decide) hLow)
    have hShort : msg.statusLine.length < 16384 := by
      by_contra hLong
      unfold responseTaken responseText at hTaken
      rw [hWire, Source.nextLine_crlf hUnbroken, if_neg hLong] at hTaken
      cases hTaken
    have hLine : StatusLineFits msg := ⟨⟨hStart, hBlank, hBreak⟩, ⟨hLow, hHigh⟩, hShort⟩
    obtain ⟨hHeaders, hBody, hRest⟩ := (hFrom hLine).mp hTaken
    exact ⟨⟨hLine, hHeaders, hBody⟩, hRest⟩
  · rintro ⟨hFits, hRest⟩
    exact (hFrom hFits.line).mpr ⟨hFits.headers, hFits.body, hRest⟩

end Responses

/-! ## Messages one after another -/

section Connection

/-- A caller that writes messages until one is refused or not sent. -/
def writeMany (write : HttpMessage → NetM TlsConnection (Int × HttpMessage)) :
    List HttpMessage → NetM TlsConnection Bool
  | [] => return true
  | msg :: msgs => do
    let written ← write msg
    if written.1 = 0 then writeMany write msgs else return false

/-- A caller that reads as many messages, if each can be read. -/
def readMany (reader : NetM TlsConnection (Option HttpMessage)) :
    Nat → NetM TlsConnection (Option (List HttpMessage))
  | 0 => return some []
  | k + 1 => do
    let msg ← reader
    match msg with
    | none => return none
    | some msg => do
      let msgs ← readMany reader k
      return msgs.map (msg :: ·)

/-- All bytes that connection `c` took, in their order. -/
def sentText (c : Nat) : List (Sigma NetAnswer) → Text
  | [] => []
  | ⟨.send c' _ bytes, sent⟩ :: tr => if c' = c ∧ sent = true then sentText c tr ++ bytes else sentText c tr
  | _ :: tr => sentText c tr

variable {env : Environment NetAnswer} {c : Nat} {msg : HttpMessage} {msgs : List HttpMessage}
  {D : Dialogue NetAnswer TlsConnection} {E : Dialogue NetAnswer TlsConnection → Prop}

theorem send_sent (bytes : Text) : Ends (TlsConnection.send env c bytes) D
    (fun rv t => 0 ≤ rv → sentText c t.trace = sentText c D.trace ++ bytes) E := by
  unfold TlsConnection.send
  rw [ends_bind, ends_read]
  split
  · intro hNonneg
    exact absurd hNonneg (by decide)
  · rw [ends_bind, ends_ask]
    cases hSent : env D.trace (.send c D.state.secure bytes) with
    | true =>
      intro _
      exact if_pos ⟨rfl, rfl⟩
    | false =>
      intro hNonneg
      exact absurd hNonneg (by decide)

theorem writeMessage_sent (startLine : Text) : Ends (writeMessage env c msg startLine) D
    (fun r t => r.1 = 0 → Unbroken msg.withLength.headers ∧
      sentText c t.trace = sentText c D.trace ++ wire startLine msg.withLength) E := by
  unfold writeMessage
  rw [ends_ite]
  constructor
  · intro _ hZero
    exact absurd (show (-1 : Int) = 0 from hZero) (by decide)
  · intro hNone
    have hUnbroken : Unbroken msg.withLength.headers := by simpa [Unbroken] using hNone
    rw [ends_bind]
    apply (send_sent _).imp
    intro rv t hSent hZero
    refine ⟨hUnbroken, hSent ?_⟩
    by_contra hNeg
    rw [if_pos (by omega)] at hZero
    exact absurd (show (-1 : Int) = 0 from hZero) (by decide)

theorem writeRequest_sent (env : Environment NetAnswer) (c : Nat) (msg : HttpMessage)
    (D : Dialogue NetAnswer TlsConnection) : Ends (writeRequest env c msg) D
    (fun r t => r.1 = 0 → RequestWritten msg ∧ sentText c t.trace = sentText c D.trace ++ requestText msg) E := by
  unfold writeRequest
  rw [ends_ite]
  constructor
  · intro _ hZero
    exact absurd (show (-1 : Int) = 0 from hZero) (by decide)
  · intro hNone
    obtain ⟨hMethod, hTarget⟩ : Text.hasBreak msg.method = false ∧ Text.hasBreak msg.target = false := by
      simpa using hNone
    apply (writeMessage_sent _).imp
    intro r t hSent hZero
    obtain ⟨hUnbroken, hText⟩ := hSent hZero
    exact ⟨⟨hMethod, hTarget, hUnbroken⟩, hText⟩

theorem writeResponse_sent (env : Environment NetAnswer) (c : Nat) (msg : HttpMessage)
    (D : Dialogue NetAnswer TlsConnection) : Ends (writeResponse env c msg) D
    (fun r t => r.1 = 0 → ResponseWritten msg ∧ sentText c t.trace = sentText c D.trace ++ responseText msg) E := by
  unfold writeResponse
  rw [ends_ite]
  constructor
  · intro _ hZero
    exact absurd (show (-1 : Int) = 0 from hZero) (by decide)
  · intro hNone
    apply (writeMessage_sent _).imp
    intro r t hSent hZero
    obtain ⟨hUnbroken, hText⟩ := hSent hZero
    exact ⟨⟨by simpa using hNone, hUnbroken⟩, hText⟩

/-- What is sent for messages is what is sent for each. -/
theorem writeMany_sent {write : HttpMessage → NetM TlsConnection (Int × HttpMessage)} {text : HttpMessage → Text}
    {Written : HttpMessage → Prop}
    (hWrite : ∀ msg D, Ends (write msg) D
      (fun r t => r.1 = 0 → Written msg ∧ sentText c t.trace = sentText c D.trace ++ text msg) E) :
    Ends (writeMany write msgs) D (fun done t => done = true →
      (∀ msg ∈ msgs, Written msg) ∧ sentText c t.trace = sentText c D.trace ++ msgs.flatMap text) E := by
  induction msgs generalizing D with
  | nil =>
    intro _
    exact ⟨by simp, by simp⟩
  | cons msg msgs ih =>
    unfold writeMany
    rw [ends_bind]
    apply (hWrite msg D).imp
    intro r t hSent
    rw [ends_ite]
    constructor
    · intro hZero
      obtain ⟨hFirst, hText⟩ := hSent hZero
      apply ih.imp
      intro done u hRest hDone
      obtain ⟨hOthers, hMore⟩ := hRest hDone
      refine ⟨List.forall_mem_cons.mpr ⟨hFirst, hOthers⟩, ?_⟩
      rw [hMore, hText, List.flatMap_cons, List.append_assoc]
    · intro _ hDone
      cases hDone

variable {R : Source env c} {w : Text} {turns : Nat}

theorem readMany_left {reader : NetM TlsConnection (Option HttpMessage)} {take : Text → Option (HttpMessage × Text)}
    (hReader : ∀ w D, R.Left w D → w.length < turns → Reads R E reader (take w) D)
    (hShort : ∀ w r, w.length < turns → take w = some r → r.2.length ≤ w.length) (k : Nat) (hD : R.Left w D)
    (hTurns : w.length < turns) :
    Reads R E (readMany reader k) (manyTaken take k w) D := by
  induction k generalizing w D with
  | zero => exact reads_some hD
  | succ k ih =>
    unfold readMany manyTaken
    refine Reads.bind (hReader w D hD hTurns) (fun _ => reads_none) ?_
    rintro ⟨msg, rest⟩ t hTaken hRest
    have hLess := hShort w _ hTurns hTaken
    dsimp only at hRest hLess ⊢
    have hMore := ih hRest (by omega)
    unfold Reads at hMore ⊢
    rw [ends_bind]
    apply hMore.imp
    rintro a u ⟨rfl, hLeft⟩
    rw [ends_pure]
    cases hMany : manyTaken take k rest with
    | none => exact ⟨rfl, by simp⟩
    | some q =>
      refine ⟨rfl, fun r hr => ?_⟩
      obtain rfl := Option.some.inj hr
      exact hLeft q hMany

theorem bodyTaken_length {maxBody : Nat} {r : Text × Text} (hTurns : w.length < turns)
    (h : bodyTaken msg maxBody turns w = some r) : r.2.length ≤ w.length := by
  obtain ⟨b, rest⟩ := r
  unfold bodyTaken at h
  split at h
  · obtain ⟨f, -, rfl, -⟩ := (parseChunked_iff hTurns).mp h
    simp
  · rcases lengthTaken_iff.mp h with ⟨-, -, rfl⟩ | ⟨-, n, -, -, rfl⟩
    · exact Nat.le_refl _
    · simp

/-- Each message fits before those that follow it. -/
def AllFit (text : HttpMessage → Text) (Fits : HttpMessage → Text → Prop) (rest : Text) : List HttpMessage → Prop
  | [] => True
  | msg :: msgs => Fits msg (msgs.flatMap text ++ rest) ∧ AllFit text Fits rest msgs

theorem manyTaken_iff {take : Text → Option (HttpMessage × Text)} {text : HttpMessage → Text}
    {asRead : HttpMessage → HttpMessage} {Fits : HttpMessage → Text → Prop} {rest : Text}
    (hTake : ∀ msg ∈ msgs, ∀ w r, take (text msg ++ w) = some (asRead msg, r) ↔ Fits msg w ∧ r = w) :
    manyTaken take msgs.length (msgs.flatMap text ++ rest) = some (msgs.map asRead, rest) ↔
      AllFit text Fits rest msgs := by
  induction msgs with
  | nil => exact ⟨fun _ => trivial, fun _ => rfl⟩
  | cons msg msgs ih =>
    obtain ⟨hFirst, hOthers⟩ := List.forall_mem_cons.mp hTake
    rw [AllFit, ← ih hOthers, List.flatMap_cons, List.append_assoc, List.length_cons, manyTaken, List.map_cons]
    constructor
    · intro hTaken
      obtain ⟨⟨m, r⟩, hOne, hMore⟩ := Option.bind_eq_some_iff.mp hTaken
      obtain ⟨⟨ms, r'⟩, hRest, hEq⟩ := Option.map_eq_some_iff.mp hMore
      obtain ⟨hMsgs, rfl⟩ := Prod.mk.inj hEq
      obtain ⟨rfl, rfl⟩ := List.cons.inj hMsgs
      obtain ⟨hFits, rfl⟩ := (hFirst _ _).mp hOne
      exact ⟨hFits, hRest⟩
    · rintro ⟨hFits, hRest⟩
      rw [(hFirst _ _).mpr ⟨hFits, rfl⟩, Option.bind_some, hRest]
      rfl

theorem requestTaken_length {maxBody : Nat} (w : Text) (r : HttpMessage × Text) (hTurns : w.length < turns)
    (h : requestTaken maxBody turns w = some r) : r.2.length ≤ w.length := by
  obtain ⟨line, hLine, hMore⟩ := Option.bind_eq_some_iff.mp h
  obtain ⟨m, -, hLater⟩ := Option.bind_eq_some_iff.mp hMore
  obtain ⟨hs, hHeaders, hLast⟩ := Option.bind_eq_some_iff.mp hLater
  obtain ⟨b, hBody, rfl⟩ := Option.map_eq_some_iff.mp hLast
  have hStart := startTaken_length hLine
  have hRest := headersTaken_length hHeaders
  have hEnd := bodyTaken_length (by omega) hBody
  dsimp only
  omega

theorem responseTaken_length {headRequest : Bool} {maxBody n : Nat} (w : Text) (r : HttpMessage × Text)
    (hTurns : w.length < turns) (h : responseTaken headRequest maxBody turns n w = some r) :
    r.2.length ≤ w.length := by
  induction n generalizing w with
  | zero => cases h
  | succ n ih =>
    obtain ⟨line, hLine, hMore⟩ := Option.bind_eq_some_iff.mp h
    obtain ⟨m, -, hLater⟩ := Option.bind_eq_some_iff.mp hMore
    obtain ⟨hs, hHeaders, hLast⟩ := Option.bind_eq_some_iff.mp hLater
    have hStart := nextLine_length hLine
    have hRest := headersTaken_length hHeaders
    dsimp only at hLast
    split at hLast
    · have hEnd := ih hs.2 (by omega) hLast
      omega
    · split at hLast
      · cases hLast
        dsimp only
        omega
      · obtain ⟨b, hBody, rfl⟩ := Option.map_eq_some_iff.mp hLast
        dsimp only
        unfold replyTaken at hBody
        split at hBody
        · unfold Source.closeTaken at hBody
          split at hBody
          · cases hBody
            exact Nat.zero_le _
          · cases hBody
        · have hEnd := bodyTaken_length (by omega) hBody
          omega

/-- The outcome of a reader is one thing exactly if the stream is taken for it. -/
theorem Reads.ends_iff {α : Type} {x : NetM TlsConnection (Option α)} {taken : Option (α × Text)} {a : α} {rest : Text}
    (hR : R.Final) (h : Reads R (fun _ => False) x taken D) :
    Ends x D (fun got t => got = some a ∧ R.Left rest t) (fun _ => False) ↔ taken = some (a, rest) := by
  constructor
  · intro hEnds
    obtain ⟨got, t, ⟨rfl, hLeft⟩, hGot, hRest⟩ := ends_exists ((h.and hEnds).mono (fun _ _ => id) fun _ => And.left)
    obtain ⟨⟨a', rest'⟩, hTaken, rfl⟩ := Option.map_eq_some_iff.mp hGot
    have hSame : rest' = rest := (hLeft _ hTaken).unique hR hRest
    rw [hTaken, hSame]
  · intro hTaken
    rw [hTaken] at h
    exact h.imp fun got t hGot => ⟨hGot.1, hGot.2 _ rfl⟩

variable {envW : Environment NetAnswer} {cw : Nat} {DW DW' : Dialogue NetAnswer TlsConnection} {maxBody : Nat}
  {rest : Text}

/-- Two requests, of which the second has a body. -/
def sampleRequests : List HttpMessage :=
  [{ method := "GET".toList, target := "/a".toList, headers := [("Host".toList, "h".toList)] },
    { method := "POST".toList, body := "hi".toList }]

/-- Two responses, of which the first has a body. -/
def sampleResponses : List HttpMessage :=
  [{ status := 200, headers := [("Server".toList, "s".toList)], body := "hi".toList },
    { status := 404, reason := "Nothing there".toList }]

end Connection

end HttpMessage

end DataReel
