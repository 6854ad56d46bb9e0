import DataReel.Net.FtpReplies
import DataReel.Net.FtpServer
import DataReel.Net.Stream

/-! # The FTP client in step with its server

While nothing was left on the control connection, what is buffered and what the
server has sent are the replies that the client has still to read.
-/

namespace DataReel

open Program

namespace FtpClient

variable {S : Server} {X : Prop} {buf w : Text} {tr : List (Sigma NetAnswer)}

section Traces

/-- A reply may have been left; `X` is known of a dependable run. -/
def Adrift (X : Prop) (tr : List (Sigma NetAnswer)) : Prop := Dependable tr → X ∧ lost tr = true

/-- With `buf` buffered the client has still to read `w`. -/
structure Live (S : Server) (X : Prop) (buf w : Text) (tr : List (Sigma NetAnswer)) : Prop where
  known : Dependable tr → X
  kept : lost tr = false
  pending : buf ++ S.stream tr = w

def InStep (S : Server) (X : Prop) (buf w : Text) (tr : List (Sigma NetAnswer)) : Prop :=
  Adrift X tr ∨ Live S X buf w tr

theorem dependable_cons {r : NetRequest} {a : NetAnswer r}
    (hr : neutral r = true ∨ ∃ b, r = .fill 0 b) :
    Dependable (⟨r, a⟩ :: tr) ↔ Dependable tr := by
  have hCommands : commands r = false := by
    rcases hr with hr | ⟨b, rfl⟩
    · cases r <;> first | rfl | skip
      case send c secure bytes => cases c <;> first | rfl | exact nomatch hr
    · rfl
  simp [Dependable, hCommands]

theorem lost_cons {r : NetRequest} {a : NetAnswer r} (hr : neutral r = true ∨ ∃ b, r = .fill 0 b) :
    lost (⟨r, a⟩ :: tr) = (breaks ⟨r, a⟩ || lost tr) := by
  unfold neutral at hr
  cases r <;> first | rfl | skip
  case connect c host port =>
    cases c with
    | zero => simp at hr
    | succ c => rfl

theorem stream_cons {r : NetRequest} {a : NetAnswer r} (hr : neutral r = true) :
    S.stream (⟨r, a⟩ :: tr) = S.stream tr := by
  cases r <;> first | rfl | skip
  case connect c host port => cases c <;> first | rfl | exact nomatch hr
  case send c secure bytes => cases c <;> first | rfl | exact nomatch hr
  case fill c secure => cases c <;> first | rfl | exact nomatch hr

theorem InStep.known (h : InStep S X buf w tr) (hDep : Dependable tr) : X := by
  cases h with
  | inl h => exact (h hDep).1
  | inr h => exact h.known hDep

theorem Adrift.cons {r : NetRequest} {a : NetAnswer r} (h : Adrift X tr)
    (hr : neutral r = true ∨ ∃ b, r = .fill 0 b) : Adrift X (⟨r, a⟩ :: tr) := by
  intro hDep
  obtain ⟨hX, hLost⟩ := h ((dependable_cons hr).mp hDep)
  exact ⟨hX, by rw [lost_cons hr, hLost, Bool.or_true]⟩

/-- What breaks the order of the replies. -/
theorem InStep.breaks {r : NetRequest} {a : NetAnswer r} (h : InStep S X buf w tr)
    (hr : neutral r = true ∨ ∃ b, r = .fill 0 b) (hBreaks : FtpClient.breaks ⟨r, a⟩ = true) :
    Adrift X (⟨r, a⟩ :: tr) := fun hDep =>
  ⟨h.known ((dependable_cons hr).mp hDep), by rw [lost_cons hr, hBreaks, Bool.true_or]⟩

theorem Live.cons {r : NetRequest} {a : NetAnswer r} (h : Live S X buf w tr)
    (hr : neutral r = true) (hBreaks : FtpClient.breaks ⟨r, a⟩ = false) :
    Live S X buf w (⟨r, a⟩ :: tr) where
  known hDep := h.known ((dependable_cons (.inl hr)).mp hDep)
  kept := by rw [lost_cons (.inl hr), hBreaks, h.kept, Bool.or_false]
  pending := by rw [stream_cons hr, h.pending]

theorem InStep.cons {r : NetRequest} {a : NetAnswer r} (h : InStep S X buf w tr)
    (hr : neutral r = true) (hBreaks : FtpClient.breaks ⟨r, a⟩ = false) :
    InStep S X buf w (⟨r, a⟩ :: tr) :=
  h.imp (fun h => h.cons (.inl hr)) fun h => h.cons hr hBreaks

theorem Live.fill {c : Char} {s : Text} (h : Live S X buf w tr) (secure : Bool)
    (hPrefix : c :: s <+: S.stream tr) :
    Live S X (buf ++ c :: s) w (⟨.fill 0 secure, .data c s⟩ :: tr) where
  known hDep := h.known hDep.2
  kept := by rw [lost_cons (.inr ⟨secure, rfl⟩), h.kept]; rfl
  pending := by
    obtain ⟨rest, hRest⟩ := hPrefix
    have hDrop : S.stream (⟨.fill 0 secure, .data c s⟩ :: tr) = rest := by
      change (S.stream tr).drop (s.length + 1) = rest
      rw [← hRest]
      simp
    rw [hDrop, List.append_assoc, hRest, h.pending]

end Traces

section Lines

variable {env : Environment NetAnswer}

/-- What a read of `line` leaves: the line is taken off, or reading failed. -/
def Took (S : Server) (X : Prop) (line w : Text) (a : Option Text)
    (t : Dialogue NetAnswer TlsConnection) : Prop :=
  Adrift X t.trace ∧ a = none ∨ Live S X t.state.rbuf w t.trace ∧ a = some line

/-- The replies of the server as what is to come, while nothing was left. -/
def source (hS : S.Delivers env) (X : Prop) : Source env 0 where
  upcoming u tr := Live S X [] u tr
  ended _ tr := Adrift X tr
  data {u tr secure ch s} h hReceived := by
    obtain ⟨rest, hRest⟩ := hS _ _ _ _ hReceived
    have hFill := h.fill secure ⟨rest, hRest⟩
    refine ⟨rest, h.pending.symm.trans hRest.symm, ⟨hFill.known, hFill.kept, ?_⟩⟩
    have hPending := hFill.pending
    rw [← h.pending, List.nil_append, List.nil_append, ← hRest] at hPending
    exact List.append_cancel_left hPending
  stop h _ hNone := InStep.breaks (.inr h) (.inr ⟨_, rfl⟩) (by
    rcases hNone with rfl | rfl <;> rfl)
  message h := h.cons (.inl rfl)

theorem live_iff_unread (hS : S.Delivers env) {D : Dialogue NetAnswer TlsConnection} :
    Live S X D.state.rbuf w D.trace ↔ (source hS X).Unread w D := by
  constructor
  · exact fun h => ⟨S.stream D.trace, ⟨h.known, h.kept, rfl⟩, h.pending⟩
  · rintro ⟨u, hUpcoming, hw⟩
    refine ⟨hUpcoming.known, hUpcoming.kept, ?_⟩
    rw [← hw, ← hUpcoming.pending, List.nil_append]

theorem readLine_live (hS : S.Delivers env) {line : Text} {maxLen : Nat}
    {E : Dialogue NetAnswer TlsConnection → Prop} {D : Dialogue NetAnswer TlsConnection}
    (hLine : '\n' ∉ line) (hMax : line.length < maxLen)
    (hD : Live S X D.state.rbuf (line ++ Text.crlf ++ w) D.trace) :
    Ends (TlsConnection.readLine env 0 maxLen) D (Took S X line w) E := by
  refine (Source.readLine_crlf hLine maxLen ((live_iff_unread hS).mp hD)).mono
    (fun a t ht => ?_) fun _ => id
  rw [if_pos hMax] at ht
  rcases ht with ⟨⟨u, -, hEnded⟩, rfl⟩ | ⟨rfl, hUnread⟩
  · exact .inl ⟨hEnded, rfl⟩
  · exact .inr ⟨(live_iff_unread hS).mpr hUnread, rfl⟩

end Lines

namespace Server

/-- Every reply that was used is the answer to its command. -/
def AllAnswered (S : Server) (answers : List FtpAnswer) : Prop := ∀ e ∈ answers, S.Answers e

end Server

section Handshakes

variable {env : Environment NetAnswer} {c : Nat} {d : Dialogue NetAnswer TlsConnection}
  {E : Dialogue NetAnswer TlsConnection → Prop}

/-- A handshake keeps the order of the replies, or nothing is relied on after it. -/
def Shook (S : Server) (X : Prop) (buf w : Text) (rv : Int)
    (u : Dialogue NetAnswer TlsConnection) : Prop :=
  InStep S X buf w u.trace ∧ (rv ≠ 0 → Adrift X u.trace)

theorem shook_failMessage (h : Adrift X d.trace) :
    Ends (TlsConnection.failMessage env c) d
      (fun rv u => (d.state.rbuf = [] → u.state.rbuf = []) ∧ Shook S X buf w rv u) E :=
  ⟨id, .inl (h.cons (.inl rfl)), fun _ => h.cons (.inl rfl)⟩

theorem tlsHandshake_ends (h : InStep S X buf w d.trace) :
    Ends (TlsConnection.tlsHandshake env c) d
      (fun rv u => (d.state.rbuf = [] → u.state.rbuf = []) ∧ Shook S X buf w rv u) E := by
  unfold TlsConnection.tlsHandshake
  simp only [ends_bind, ends_ask, ends_read, ends_ite, ends_update, ends_pure]
  refine ⟨fun hOpened => ?_, fun hOpened => ?_⟩
  · have hSsl := h.cons (r := .openSsl c) rfl (by simpa [FtpClient.breaks] using hOpened)
    refine ⟨fun hFailed => ?_, fun hDone => ?_⟩
    · exact shook_failMessage (hSsl.breaks (.inl rfl) (by simpa [FtpClient.breaks] using hFailed))
    · have hShaken := hSsl.cons (r := .handshake c d.state.hostName false) rfl
        (by simpa [FtpClient.breaks] using hDone)
      refine ⟨fun _ => ⟨fun hValid => ?_, fun hValid => ?_⟩, fun _ => ?_⟩
      · exact ⟨id, hShaken.cons rfl (by simpa [FtpClient.breaks] using hValid), fun h => absurd rfl h⟩
      · exact shook_failMessage (hShaken.breaks (.inl rfl) (by simpa [FtpClient.breaks] using hValid))
      · exact ⟨id, hShaken, fun h => absurd rfl h⟩
  · exact shook_failMessage (h.breaks (.inl rfl) (by simpa [FtpClient.breaks] using hOpened))

/-- A handshake over an open connection ends in one of these ways. -/
theorem startTls_ends (h : InStep S X buf w d.trace) :
    Ends (TlsConnection.startTls env c) d (fun rv u => (d.state.rbuf = [] → u.state.rbuf = []) ∧
      InStep S X buf w u.trace ∧ (d.state.isOpen = true → rv ≠ 0 → Adrift X u.trace)) E := by
  unfold TlsConnection.startTls
  simp only [ends_bind, ends_read, ends_ite, ends_update, ends_ask, ends_pure]
  refine ⟨fun hClosed => ⟨id, h, fun hOpen => ?_⟩, fun _ => ⟨fun _ => ⟨id, h, fun _ h => absurd rfl h⟩,
    fun _ => ⟨fun hReady => ?_, fun hReady => ?_⟩⟩⟩
  · rw [hOpen] at hClosed
    exact nomatch hClosed
  · have hCtx := h.cons (r := .initCtx c) rfl (by simpa [FtpClient.breaks] using hReady)
    exact (tlsHandshake_ends hCtx).mono (fun rv u hu => ⟨fun _ => hu.1 rfl, hu.2.1, fun _ => hu.2.2⟩)
      fun _ => id
  · have hAdrift := h.breaks (r := .initCtx c) (.inl rfl) (by simpa [FtpClient.breaks] using hReady)
    exact (shook_failMessage hAdrift).mono
      (fun rv u hu => ⟨fun _ => hu.1 rfl, hu.2.1, fun _ => hu.2.2⟩) fun _ => id

theorem attachClient_ends (h : InStep S X buf w d.trace) (host : Text)
    (sessionFrom : TlsConnection → Option TlsConnection) :
    Ends (TlsConnection.attachClient env c true host sessionFrom) d (Shook S X buf w) E := by
  unfold TlsConnection.attachClient
  simp only [TlsConnection.close, ends_bind, ends_update, ends_read]
  split
  next =>
    have hStep : InStep S X buf w d.trace := h
    exact Ends.mono (startTls_ends hStep) (fun rv u hu => ⟨hu.2.1, hu.2.2 rfl⟩) fun _ => id
  next other _ =>
    have hFailed {e : List (Sigma NetAnswer)} {t : TlsConnection} (he : Adrift X e) :
        Ends (TlsConnection.failMessage env c) { state := t, trace := e } (Shook S X buf w) E :=
      (shook_failMessage he).mono (fun _ _ hu => hu.2) fun _ => id
    simp only [ends_bind, ends_ask, ends_ite]
    refine ⟨fun hOpened => ?_, fun hOpened => ?_⟩
    · have hSsl := h.cons (r := .openSsl c) rfl (by simpa [FtpClient.breaks] using hOpened)
      cases hOutcome : env (⟨.openSsl c, env d.trace (.openSsl c)⟩ :: d.trace) (.handshake c host true) with
      | failed => exact hFailed (hSsl.breaks (.inl rfl) rfl)
      | full => exact ⟨hSsl.cons rfl rfl, fun h => absurd rfl h⟩
      | resumed => exact ⟨hSsl.cons rfl rfl, fun h => absurd rfl h⟩
    · exact hFailed (h.breaks (.inl rfl) (by simpa [FtpClient.breaks] using hOpened))

theorem connect_ends (hX : Dependable d.trace → X) (host : Text) (port : Int) (implicitTls : Bool) :
    Ends (TlsConnection.connect env 0 host port implicitTls) d (fun rv u =>
      InStep S X u.state.rbuf (if rv = 0 then (S.greeting d.trace).wire else []) u.trace) E := by
  unfold TlsConnection.connect
  simp only [TlsConnection.close, ends_bind, ends_update, ends_ite, ends_ask, ends_pure]
  refine ⟨fun hConnected => ?_, fun hConnected => ?_⟩
  · have hGreeted : InStep S X [] (S.greeting d.trace).wire
        (⟨.connect 0 host port, env d.trace (.connect 0 host port)⟩ :: d.trace) := by
      refine .inr ⟨fun hDep => hX hDep.2, rfl, ?_⟩
      change [] ++ (if env d.trace (.connect 0 host port) = true then _ else _) = _
      rw [if_pos hConnected, List.nil_append]
    refine ⟨fun _ => ?_, fun _ => hGreeted⟩
    refine (startTls_ends hGreeted).mono (fun rv u hu => ?_) fun _ => id
    obtain ⟨hBuf, hStep, hFailed⟩ := hu
    rw [hBuf rfl]
    split
    · exact hStep
    · next hrv => exact .inl (hFailed rfl hrv)
  · refine .inr ⟨fun hDep => hX hDep.2.2, rfl, ?_⟩
    change [] ++ (if env d.trace (.connect 0 host port) = true then _ else _) = _
    rw [if_neg hConnected, List.nil_append]
    rfl

end Handshakes

section Replies

variable {env : Environment NetAnswer} {D : Dialogue NetAnswer FtpClient}

def AdriftAt (S : Server) (D : Dialogue NetAnswer FtpClient) : Prop :=
  Adrift (S.AllAnswered D.state.answers) D.trace

def LiveAt (S : Server) (w : Text) (D : Dialogue NetAnswer FtpClient) : Prop :=
  Live S (S.AllAnswered D.state.answers) D.state.conn.rbuf w D.trace

/-- The replies that the client has still to read are `w`, unless one may have been left. -/
def InSync (S : Server) (w : Text) (D : Dialogue NetAnswer FtpClient) : Prop :=
  AdriftAt S D ∨ LiveAt S w D

theorem adrift_idle : Idle (AdriftAt S) where
  message h := h.cons (.inl rfl)
  fill h := h.cons (.inr ⟨_, rfl⟩)
  error h := h
  reply h := h
  connError h := h
  connRbuf h := h

theorem moreLines_live (hS : S.Delivers env) {E : Dialogue NetAnswer FtpClient → Prop} {code : Text}
    {lines : List Text} {n : Nat} (hCloses : closes code lines = true)
    (hFits : ∀ line ∈ lines, '\n' ∉ line ∧ line.length < 8192) (hn : lines.length ≤ n)
    (hD : LiveAt S (lines.flatMap (· ++ Text.crlf) ++ w) D) :
    Ends (moreLines env code n) D (fun found t => AdriftAt S t ∧ found = false ∨
      LiveAt S w t ∧ found = true ∧
        t.state.lastReply = D.state.lastReply ++ lines.flatMap ('\n' :: ·)) E := by
  induction lines generalizing n D with
  | nil => exact nomatch hCloses
  | cons line lines ih =>
    obtain ⟨m, rfl⟩ : ∃ m, n = m + 1 := ⟨n - 1, by simp at hn; omega⟩
    obtain ⟨hBreak, hLength⟩ := hFits line List.mem_cons_self
    rw [List.flatMap_cons, List.append_assoc] at hD
    unfold moreLines onConn
    rw [ends_bind, ends_zoom]
    refine (readLine_live hS hBreak hLength (D := { state := D.state.conn, trace := D.trace }) hD).mono (fun a t ht => ?_) fun _ => id
    rcases ht with ⟨hAdrift, rfl⟩ | ⟨hLive, rfl⟩
    · exact .inl ⟨hAdrift, rfl⟩
    · rw [ends_bind, ends_update, ends_ite]
      cases lines with
      | nil =>
        refine ⟨fun _ => .inr ⟨hLive, rfl, ?_⟩, fun hEnds => absurd hCloses hEnds⟩
        simp
      | cons next lines =>
        obtain ⟨hGoesOn, hRest⟩ : endsReply code line = false ∧ closes code (next :: lines) = true := by
          simpa [closes] using hCloses
        refine ⟨fun hEnds => by simp [hGoesOn] at hEnds, fun _ => ?_⟩
        refine Ends.mono (ih hRest (fun l hl => hFits l (List.mem_cons_of_mem line hl))
          (Nat.le_of_succ_le_succ hn) ?_) (fun found u hu => ?_) fun _ => id
        · exact hLive
        · refine hu.imp_right fun ⟨hw, hFound, hText⟩ => ⟨hw, hFound, ?_⟩
          rw [hText]
          simp

theorem readReply_live (hS : S.Delivers env) {E : Dialogue NetAnswer FtpClient → Prop} {r : Reply}
    (hD : LiveAt S (r.wire ++ w) D) :
    Ends (readReply env) D (fun code t => AdriftAt S t ∧ code < 0 ∨
      LiveAt S w t ∧ code = r.value ∧ t.state.lastCode = r.value ∧ t.state.lastReply = r.text) E := by
  obtain ⟨hBreak, hLength⟩ := r.fits r.first List.mem_cons_self
  have hWire : r.wire ++ w = r.first ++ Text.crlf ++ (r.more.flatMap (· ++ Text.crlf) ++ w) := by
    simp [Reply.wire]
  rw [LiveAt, hWire] at hD
  unfold readReply onConn
  rw [ends_bind, ends_update, ends_bind, ends_zoom]
  refine (readLine_live hS hBreak hLength (D := { state := D.state.conn, trace := D.trace }) hD).mono (fun a t ht => ?_) fun _ => id
  rcases ht with ⟨hAdrift, rfl⟩ | ⟨hLive, rfl⟩
  · exact .inl ⟨hAdrift, by decide⟩
  · rw [ends_bind, ends_update, ends_ite]
    refine ⟨fun hShort => absurd r.long (Nat.not_le.mpr hShort), fun _ => ?_⟩
    have hWhole := r.whole
    unfold restOfReply
    split at hWhole
    next hDash =>
      rw [if_pos hDash, ends_bind]
      refine Ends.mono (moreLines_live hS hWhole (w := w)
        (fun l hl => r.fits l (List.mem_cons_of_mem _ hl)) r.count ?_) (fun complete u hu => ?_) fun _ => id
      · exact hLive
      · rcases hu with ⟨hAdrift, rfl⟩ | ⟨hAfter, rfl, hText⟩
        · exact .inl ⟨hAdrift, by decide⟩
        · exact .inr ⟨hAfter, rfl, rfl, hText⟩
    next hDash =>
      rw [hWhole] at hLive
      rw [if_neg hDash]
      refine .inr ⟨hLive, rfl, rfl, ?_⟩
      simp [Reply.text, hWhole]

end Replies

end FtpClient

end DataReel
