import DataReel.Net.Pop3
import DataReel.Net.Reading
import DataReel.Net.Stream

/-! # The text of a mail on the wire

What `Data` sends after its command, and what `read_multiline` makes of it.
-/

namespace DataReel

open Program

namespace Text

/-- Every CR LF, lone CR and lone LF as CR LF. -/
def breaks : Text → Text
  | '\r' :: '\n' :: s => crlf ++ breaks s
  | c :: s => if c = '\r' ∨ c = '\n' then crlf ++ breaks s else c :: breaks s
  | [] => []

/-- A line break after a last line that has none. -/
def finalBreak (m : Text) : Text :=
  match m.getLast? with
  | none => []
  | some c => if c = '\r' ∨ c = '\n' then [] else crlf

def normalized (m : Text) : Text := breaks m ++ finalBreak m

/-- The lines of a text without their line breaks. -/
def splitLines : Text → List Text
  | '\r' :: '\n' :: s => [] :: splitLines s
  | c :: s =>
    if c = '\r' ∨ c = '\n' then [] :: splitLines s
    else (c :: (splitLines s).headD []) :: (splitLines s).tail
  | [] => []

def joinLines (ls : List Text) : Text := ls.flatMap (· ++ crlf)

/-- A line with a second dot before a dot that starts it. -/
def stuffLine (l : Text) : Text := if l.head? = some '.' then '.' :: l else l

variable {m s l : Text} {ls : List Text} {c : Char}

theorem splitLines_ne_nil (h : m ≠ []) : splitLines m ≠ [] := by
  rw [splitLines.eq_def]
  split
  · exact List.cons_ne_nil _ _
  · split <;> exact List.cons_ne_nil _ _
  · exact absurd rfl h

theorem finalBreak_cons (h : s ≠ []) (c : Char) : finalBreak (c :: s) = finalBreak s := by
  unfold finalBreak
  cases s with
  | nil => exact absurd rfl h
  | cons d s => rfl

theorem finalBreak_break (hc : c = '\r' ∨ c = '\n') (s : Text) : finalBreak (c :: s) = finalBreak s := by
  cases s with
  | nil =>
    unfold finalBreak
    exact if_pos hc
  | cons d s => exact finalBreak_cons (List.cons_ne_nil d s) c

theorem joinLines_cons (l : Text) (ls : List Text) : joinLines (l :: ls) = l ++ crlf ++ joinLines ls :=
  List.flatMap_cons

theorem headD_cons_tail (h : ls ≠ []) : ls.headD [] :: ls.tail = ls := by
  cases ls with
  | nil => exact absurd rfl h
  | cons l ls => rfl

/-- The normalized text is its lines with CR LF after each. -/
theorem normalized_eq (m : Text) : normalized m = joinLines (splitLines m) := by
  unfold normalized
  induction m using splitLines.induct with
  | case1 s ih =>
    rw [breaks, splitLines, joinLines_cons, ← ih, finalBreak_break (Or.inl rfl), finalBreak_break (Or.inr rfl)]
    simp
  | case2 c s hPair hc ih =>
    rw [breaks.eq_2 c s hPair, splitLines.eq_2 c s hPair, if_pos hc, if_pos hc, joinLines_cons, ← ih,
      finalBreak_break hc]
    simp
  | case3 c s hPair hc ih =>
    rw [breaks.eq_2 c s hPair, splitLines.eq_2 c s hPair, if_neg hc, if_neg hc]
    cases s with
    | nil =>
      unfold finalBreak
      rw [List.getLast?_singleton]
      dsimp only
      rw [if_neg hc]
      rfl
    | cons d s =>
      have hNe : splitLines (d :: s) ≠ [] := splitLines_ne_nil (List.cons_ne_nil d s)
      rw [finalBreak_cons (List.cons_ne_nil d s), List.cons_append, ih, ← headD_cons_tail hNe, joinLines_cons,
        joinLines_cons]
      rfl
  | case4 => rfl

/-! ## The encoder -/

theorem stuff_break {c : Char} (hc : c = '\r' ∨ c = '\n') (hPair : ∀ t, c = '\r' → s = '\n' :: t → False) (b : Bool) :
    SmtpClient.stuff b (c :: s) = crlf ++ SmtpClient.stuff true s := by
  have hDot : (b && c = '.') = false := by
    rcases hc with rfl | rfl <;> simp
  have hNot : (c = '\r' && s.head? = some '\n') = false := by
    by_contra hBoth
    simp only [Bool.not_eq_false, Bool.and_eq_true, decide_eq_true_eq] at hBoth
    obtain ⟨t, ht⟩ := List.head?_eq_some_iff.mp hBoth.2
    exact hPair t hBoth.1 ht
  rw [SmtpClient.stuff, hDot, hNot, if_neg Bool.false_ne_true, if_neg Bool.false_ne_true, if_pos (by simpa using hc)]
  rfl

theorem stuff_plain (hc : ¬(c = '\r' ∨ c = '\n')) (b : Bool) :
    SmtpClient.stuff b (c :: s) = (if b && c = '.' then ['.'] else []) ++ c :: SmtpClient.stuff false s := by
  push Not at hc
  have hPair : (c = '\r' && s.head? = some '\n') = false := by simp [hc.1]
  have hBreak : (c = '\r' || c = '\n') = false := by simp [hc]
  rw [SmtpClient.stuff, hPair, hBreak, if_neg Bool.false_ne_true, if_neg Bool.false_ne_true]

/-- The text that is sent is the lines with a dot before one that starts a line; the first may have begun. -/
theorem stuff_eq (m : Text) :
    SmtpClient.stuff true m = joinLines ((splitLines m).map stuffLine) ∧
      SmtpClient.stuff false m =
        joinLines ((splitLines m).headD [] :: (splitLines m).tail.map stuffLine) := by
  induction m using splitLines.induct with
  | case1 s ih =>
    have hPair (b : Bool) : SmtpClient.stuff b ('\r' :: '\n' :: s) = crlf ++ SmtpClient.stuff true s := by
      have hRest := stuff_break (c := '\n') (s := s) (Or.inr rfl) (fun _ h => by cases h) b
      rw [SmtpClient.stuff, if_neg (by simp), if_pos (by simp), hRest]
      rfl
    rw [hPair, hPair, splitLines, ih.1, List.map_cons, joinLines_cons]
    exact ⟨rfl, (joinLines_cons [] _).symm⟩
  | case2 c s hPair hc ih =>
    rw [stuff_break hc hPair, stuff_break hc hPair, splitLines.eq_2 c s hPair, if_pos hc, ih.1, List.map_cons,
      joinLines_cons]
    exact ⟨rfl, (joinLines_cons [] _).symm⟩
  | case3 c s hPair hc ih =>
    rw [stuff_plain hc, stuff_plain hc, splitLines.eq_2 c s hPair, if_neg hc, ih.2, List.map_cons, joinLines_cons,
      joinLines_cons, List.headD_cons, List.tail_cons, joinLines_cons]
    constructor
    · unfold stuffLine
      by_cases hDot : c = '.' <;> simp [hDot]
    · simp
  | case4 => exact ⟨rfl, rfl⟩

theorem splitLines_unbroken (m : Text) : ∀ l ∈ splitLines m, '\r' ∉ l ∧ '\n' ∉ l := by
  induction m using splitLines.induct with
  | case1 s ih =>
    rw [splitLines, List.forall_mem_cons]
    exact ⟨⟨List.not_mem_nil, List.not_mem_nil⟩, ih⟩
  | case2 c s hPair hc ih =>
    rw [splitLines.eq_2 c s hPair, if_pos hc, List.forall_mem_cons]
    exact ⟨⟨List.not_mem_nil, List.not_mem_nil⟩, ih⟩
  | case3 c s hPair hc ih =>
    push Not at hc
    have hHead : '\r' ∉ (splitLines s).headD [] ∧ '\n' ∉ (splitLines s).headD [] := by
      cases hLines : splitLines s with
      | nil => exact ⟨List.not_mem_nil, List.not_mem_nil⟩
      | cons l ls => exact ih l (by rw [hLines]; exact List.mem_cons_self)
    rw [splitLines.eq_2 c s hPair, if_neg (by simp [hc]), List.forall_mem_cons]
    constructor
    · constructor <;> rw [List.mem_cons, not_or]
      · exact ⟨Ne.symm hc.1, hHead.1⟩
      · exact ⟨Ne.symm hc.2, hHead.2⟩
    · intro l hl
      exact ih l (List.mem_of_mem_tail hl)
  | case4 => exact nofun

theorem stuffLine_cases (l : Text) : (stuffLine l = l ∧ l.head? ≠ some '.') ∨ stuffLine l = '.' :: l ∧ l ≠ [] := by
  unfold stuffLine
  split
  · next hDot =>
    refine Or.inr ⟨rfl, ?_⟩
    rintro rfl
    cases hDot
  · next hDot => exact Or.inl ⟨rfl, hDot⟩

theorem unstuff_stuffLine (l : Text) : Pop3Client.unstuff (stuffLine l) = l := by
  unfold Pop3Client.unstuff
  rcases stuffLine_cases l with ⟨hEq, hDot⟩ | ⟨hEq, -⟩
  · rw [hEq, if_neg hDot]
  · rw [hEq]
    rfl

theorem stuffLine_ne_dot (l : Text) : stuffLine l ≠ ".".toList := by
  rcases stuffLine_cases l with ⟨hEq, hDot⟩ | ⟨hEq, hNe⟩
  · rw [hEq]
    rintro rfl
    exact hDot rfl
  · rw [hEq]
    intro h
    exact hNe (List.cons.inj h).2

theorem length_stuffLine (l : Text) : (stuffLine l).length ≤ l.length + 1 := by
  rcases stuffLine_cases l with ⟨hEq, -⟩ | ⟨hEq, -⟩ <;> rw [hEq] <;> simp

theorem length_splitLines (m : Text) : (splitLines m).length ≤ m.length := by
  induction m using splitLines.induct with
  | case1 s ih =>
    rw [splitLines]
    simp only [List.length_cons]
    omega
  | case2 c s hPair hc ih =>
    rw [splitLines.eq_2 c s hPair, if_pos hc]
    simp only [List.length_cons]
    omega
  | case3 c s hPair hc ih =>
    rw [splitLines.eq_2 c s hPair, if_neg hc]
    simp only [List.length_cons, List.length_tail]
    omega
  | case4 => exact Nat.le_refl 0

theorem joinLines_append (ls ls' : List Text) : joinLines (ls ++ ls') = joinLines ls ++ joinLines ls' :=
  List.flatMap_append

theorem stuffLine_unbroken {c : Char} (hc : c ≠ '.') (h : c ∉ l) : c ∉ stuffLine l := by
  rcases stuffLine_cases l with ⟨hEq, -⟩ | ⟨hEq, -⟩ <;> rw [hEq]
  · exact h
  · simp [hc, h]

end Text

/-! ## The reader -/

namespace Pop3Client

variable {env : Environment NetAnswer} {R : Source env 0} {D : Dialogue NetAnswer Pop3Client}
  {E : Dialogue NetAnswer Pop3Client → Prop} {rest : Text}

/-- What the connection of the client has still to read. -/
def Unread (R : Source env 0) (w : Text) (D : Dialogue NetAnswer Pop3Client) : Prop :=
  R.Unread w { state := D.state.conn, trace := D.trace }

theorem readLine_ends (hWhole : ∀ D, ¬R.CutOff D) {line : Text} (hLine : '\n' ∉ line)
    (hShort : line.length < 1024 * 1024) (hD : Unread R (line ++ Text.crlf ++ rest) D) :
    Ends (onConn (TlsConnection.readLine env 0 (1024 * 1024))) D
      (fun a t => a = some line ∧ Unread R rest t) E := by
  apply ends_zoom.mpr
  apply (Source.readLine_crlf hLine (1024 * 1024) hD).mono
  · intro a t ht
    have hRead := ht.resolve_left fun h => hWhole t h.1
    rw [if_pos hShort] at hRead
    exact hRead
  · exact fun _ => id

/-- The lines are read up to the dot, which a turn each takes. -/
theorem readMultiline_ends (hWhole : ∀ D, ¬R.CutOff D) {lines : List Text} {n : Nat}
    (hLines : ∀ l ∈ lines, '\n' ∉ l ∧ l ≠ ".".toList ∧ l.length < 1024 * 1024) (hn : lines.length < n)
    (text : Text) (hD : Unread R (Text.joinLines lines ++ (".".toList ++ Text.crlf) ++ rest) D) :
    Ends (readMultiline env text n) D
      (fun r t => r = (0, text ++ Text.joinLines (lines.map unstuff)) ∧ Unread R rest t) E := by
  induction lines generalizing text n D with
  | nil =>
    obtain ⟨k, rfl⟩ : ∃ k, n = k + 1 := ⟨n - 1, by omega⟩
    unfold readMultiline
    rw [ends_bind]
    apply (readLine_ends hWhole (by decide) (by decide) hD).mono
    · rintro _ t ⟨rfl, ht⟩
      exact ⟨by simp [Text.joinLines], ht⟩
    · exact fun _ => id
  | cons l ls ih =>
    obtain ⟨k, rfl⟩ : ∃ k, n = k + 1 := ⟨n - 1, by omega⟩
    obtain ⟨hBreak, hDot, hShort⟩ := hLines l List.mem_cons_self
    have hRest : ∀ l ∈ ls, '\n' ∉ l ∧ l ≠ ".".toList ∧ l.length < 1024 * 1024 :=
      fun l' hl' => hLines l' (List.mem_cons_of_mem l hl')
    rw [Text.joinLines_cons, List.append_assoc, List.append_assoc] at hD
    unfold readMultiline
    rw [ends_bind]
    apply (readLine_ends hWhole hBreak hShort hD).mono
    · rintro _ t ⟨rfl, ht⟩
      dsimp only
      rw [if_neg hDot, List.map_cons, Text.joinLines_cons, ← List.append_assoc, ← List.append_assoc]
      rw [← List.append_assoc] at ht
      exact ih hRest (by simpa using hn) _ ht
    · exact fun _ => id

end Pop3Client

/-! ## What is sent -/

/-- What was sent, the last first. -/
def sentTexts (tr : List (Sigma NetAnswer)) : List Text :=
  tr.filterMap fun r =>
    match r.1 with
    | .send _ _ bytes => some bytes
    | _ => none

namespace SmtpClient

variable {env : Environment NetAnswer} {X : List Text}

/-- The client has sent `X`. -/
def HasSent (X : List Text) (D : Dialogue NetAnswer SmtpClient) : Prop := sentTexts D.trace = X

def ConnSent (X : List Text) (D : Dialogue NetAnswer TlsConnection) : Prop := sentTexts D.trace = X

theorem connSent_passive (X : List Text) : TlsConnection.Passive 0 (ConnSent X) where
  message h := h
  fill h := h
  error h := h
  rbuf h := h

theorem keeps_update_sent (f : SmtpClient → SmtpClient) :
    Program.Keeps (HasSent X) (update f : NetM SmtpClient Unit) := fun _ h => h

theorem keeps_fail_sent (msg : Text) : Program.Keeps (HasSent X) (fail msg) := fun _ h => h

theorem keeps_readLine_sent (maxLen : Nat) :
    Program.Keeps (HasSent X) (onConn (TlsConnection.readLine env 0 maxLen)) :=
  ((connSent_passive X).keeps_readLine maxLen).zoom (fun _ h => h) fun _ _ _ h => h

theorem keeps_replyLines_sent (n : Nat) : Program.Keeps (HasSent X) (replyLines env n) := by
  induction n with
  | zero => exact keeps_fail_sent _
  | succ n ih =>
    apply Program.Keeps.bind (keeps_readLine_sent _)
    intro line
    cases line with
    | none => exact .bind keeps_read fun _ => keeps_fail_sent _
    | some line =>
      apply Program.Keeps.ite (keeps_fail_sent _)
      apply Program.Keeps.bind (keeps_update_sent _)
      intro _
      exact .ite ih (.bind (keeps_update_sent _) fun _ => keeps_pure _)

theorem keeps_readReply_sent : Program.Keeps (HasSent X) (readReply env) :=
  .bind (keeps_update_sent _) fun _ => keeps_replyLines_sent _

/-- A text is sent once, or the connection is closed. -/
theorem send_sent {D : Dialogue NetAnswer SmtpClient} (hD : HasSent X D) (bytes : Text) :
    Ends (onConn (TlsConnection.send env 0 bytes)) D
      (fun rv t => HasSent (bytes :: X) t ∨ rv < 0 ∧ HasSent X t) (HasSent X) := by
  apply ends_zoom.mpr
  unfold TlsConnection.send
  rw [ends_bind, ends_read, ends_ite]
  constructor
  · intro _
    exact Or.inr ⟨by decide, hD⟩
  · intro _
    rw [ends_bind, ends_ask, ends_ite]
    constructor
    · intro _
      exact Or.inl (congrArg (bytes :: ·) hD)
    · intro _
      exact Or.inl (congrArg (bytes :: ·) hD)

theorem keeps_checkedReply_sent (expect : Text) :
    Program.Keeps (HasSent X) (do
      let code ← readReply env
      if code < 0 then
        return -1
      else
        let s ← read
        if Text.startsWith (Text.ofInt s.lastCode) expect then
          return 0
        else
          fail ("SMTP exception: ".toList ++ s.lastReply) : NetM SmtpClient Int) := by
  apply Program.Keeps.bind keeps_readReply_sent
  intro _
  apply Program.Keeps.ite (keeps_pure _)
  exact .bind keeps_read fun _ => .ite (keeps_pure _) (keeps_fail_sent _)

/-- A command that ends well has sent its line and nothing else. -/
theorem command_sent {D : Dialogue NetAnswer SmtpClient} (hD : HasSent X D) (cmd expect : Text) :
    Ends (command env cmd expect) D
      (fun rv t => HasSent ((cmd ++ Text.crlf) :: X) t ∨ rv ≠ 0 ∧ HasSent X t)
      (fun t => HasSent ((cmd ++ Text.crlf) :: X) t ∨ HasSent X t) := by
  unfold command
  rw [ends_ite]
  constructor
  · intro _
    exact Or.inr ⟨by decide, hD⟩
  · intro _
    rw [ends_bind]
    apply (send_sent hD (cmd ++ Text.crlf)).mono
    · intro sent t ht
      rw [ends_ite]
      constructor
      · intro _
        exact ht.imp_right fun h => ⟨by decide, h.2⟩
      · intro hSent
        have hLine := ht.resolve_right fun h => hSent h.1
        exact (keeps_checkedReply_sent expect t hLine).mono (fun _ _ h => Or.inl h) fun _ h => Or.inl h
    · exact fun _ h => Or.inr h

/-- The text of a mail as `Data` sends it. -/
def mailText (message : Text) : Text := stuff true message ++ ".\r\n".toList

/-- Nothing was sent, the command alone, or the command and the text. -/
def DataSent (message : Text) (X : List Text) (rv : Int) (D : Dialogue NetAnswer SmtpClient) : Prop :=
  HasSent (mailText message :: "DATA\r\n".toList :: X) D ∨
    rv ≠ 0 ∧ (HasSent ("DATA\r\n".toList :: X) D ∨ HasSent X D)

theorem data_sent {D : Dialogue NetAnswer SmtpClient} (hD : HasSent X D) (message : Text) :
    Ends (data env message) D (DataSent message X) (DataSent message X (-1)) := by
  unfold data
  rw [ends_bind]
  apply (command_sent hD "DATA".toList "354".toList).mono
  · intro rv t ht
    rw [ends_ite]
    constructor
    · intro _
      exact Or.inr ⟨by decide, ht.imp_right And.right⟩
    · intro hZero
      have hCommand := ht.resolve_right fun h => hZero h.1
      rw [ends_bind]
      apply (send_sent hCommand (mailText message)).mono
      · intro sent u hu
        rw [ends_ite]
        constructor
        · intro _
          exact hu.imp_right fun h => ⟨by decide, Or.inl h.2⟩
        · intro hSent
          have hText := hu.resolve_right fun h => hSent h.1
          have hKeeps : Program.Keeps (HasSent (mailText message :: ("DATA".toList ++ Text.crlf) :: X)) (do
              let code ← readReply env
              let s ← read
              if code < 0 then
                return -1
              else if s.lastCode ≠ 250 then
                fail ("SMTP exception: ".toList ++ s.lastReply)
              else
                return 0 : NetM SmtpClient Int) := by
            apply Program.Keeps.bind keeps_readReply_sent
            intro _
            apply Program.Keeps.bind keeps_read
            intro _
            exact .ite (keeps_pure _) (.ite (keeps_fail_sent _) (keeps_pure _))
          exact (hKeeps u hText).mono (fun _ _ h => Or.inl h) fun _ h => Or.inl h
      · exact fun _ h => Or.inr ⟨by decide, Or.inl h⟩
  · exact fun _ h => Or.inr ⟨by decide, h⟩

end SmtpClient

/-! ## From the sender to the reader -/

/-- A message with dots and all kinds of line breaks. -/
def sampleMail : Text := "..\r\r\n.\n.".toList

end DataReel
