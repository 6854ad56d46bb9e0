import DataReel.Net.TlsConnection

/-! # Reading what a peer sends

A source tells what is still to come over a connection. Lines and blocks are
read off it whole, in whatever pieces they arrive.
-/

namespace DataReel

open Program

/-- What is known of the bytes to come over connection `c`, and of a read that gets none. -/
structure Source (env : Environment NetAnswer) (c : Nat) where
  upcoming : Text → List (Sigma NetAnswer) → Prop
  ended : Text → List (Sigma NetAnswer) → Prop
  data : ∀ {u tr secure ch s}, upcoming u tr → env tr (.fill c secure) = .data ch s →
    ∃ rest, u = ch :: s ++ rest ∧ upcoming rest (⟨.fill c secure, .data ch s⟩ :: tr)
  stop : ∀ {u tr secure r}, upcoming u tr → env tr (.fill c secure) = r → (r = .closed ∨ r = .failed) →
    ended u (⟨.fill c secure, r⟩ :: tr)
  message : ∀ {u tr m}, ended u tr → ended u (⟨.exceptionMessage c, m⟩ :: tr)

namespace Source

variable {env : Environment NetAnswer} {c : Nat} (R : Source env c)

/-- The program has still to read `w`, a part of which may be buffered. -/
def Unread (w : Text) (D : Dialogue NetAnswer TlsConnection) : Prop :=
  ∃ u, R.upcoming u D.trace ∧ D.state.rbuf ++ u = w

/-- A read got nothing although more was to come. -/
def CutOff (D : Dialogue NetAnswer TlsConnection) : Prop := ∃ u, u ≠ [] ∧ R.ended u D.trace

variable {R} {w : Text} {D : Dialogue NetAnswer TlsConnection}
  {E : Dialogue NetAnswer TlsConnection → Prop}

theorem fill_ends (hD : R.Unread w D) :
    Ends (TlsConnection.fill env c) D (fun rv t =>
      rv ≤ 0 ∧ t.state.rbuf = D.state.rbuf ∧ (∃ u, R.ended u t.trace ∧ D.state.rbuf ++ u = w) ∨
        0 < rv ∧ R.Unread w t ∧ D.state.rbuf.length < t.state.rbuf.length) E := by
  obtain ⟨u, hUpcoming, hw⟩ := hD
  unfold TlsConnection.fill
  rw [ends_bind, ends_read, ends_bind, ends_ask]
  cases hReceived : env D.trace (.fill c D.state.secure) with
  | data ch s =>
    obtain ⟨rest, rfl, hRest⟩ := R.data hUpcoming hReceived
    refine .inr ⟨by omega, ⟨rest, hRest, ?_⟩, ?_⟩
    · change D.state.rbuf ++ ch :: s ++ rest = w
      rw [← hw, List.append_assoc]
    · change _ < (D.state.rbuf ++ ch :: s).length
      simp
  | closed => exact .inl ⟨by decide, rfl, u, R.stop hUpcoming hReceived (.inl rfl), hw⟩
  | failed =>
    exact .inl ⟨by decide, rfl, u, R.message (R.stop hUpcoming hReceived (.inr rfl)), hw⟩

section Lines

variable {line rest : Text}

/-- Without a line break in it, the buffer is a part of the first line. -/
theorem Unread.buffered_short (hD : R.Unread (line ++ '\n' :: rest) D)
    (hNone : '\n' ∉ D.state.rbuf) : ∃ more, D.state.rbuf ++ more = line ∧
      ∀ u, D.state.rbuf ++ u = line ++ '\n' :: rest → u ≠ [] := by
  obtain ⟨u, -, hw⟩ := hD
  rcases List.append_eq_append_iff.mp hw with ⟨more, hLine, -⟩ | ⟨more, hBuf, hRest⟩
  · refine ⟨more, hLine.symm, ?_⟩
    rintro v hv rfl
    rw [List.append_nil] at hv
    exact hNone (hv ▸ by simp)
  · cases more with
    | nil =>
      rw [List.append_nil] at hBuf
      refine ⟨[], by rw [List.append_nil, hBuf], ?_⟩
      rintro v hv rfl
      rw [List.append_nil] at hv
      exact hNone (hv ▸ by simp)
    | cons ch more =>
      obtain ⟨rfl, -⟩ := List.cons.inj hRest
      exact absurd (hBuf ▸ by simp) hNone

/-- The loop ends with a buffered line, or the line is too long. The induction is on the turns,
of which there are more than bytes missing up to the limit. -/
theorem readLineLoop_ends (maxLen n : Nat) (hD : R.Unread (line ++ '\n' :: rest) D)
    (hn : maxLen + 2 ≤ n + D.state.rbuf.length) (hPos : 0 < n) :
    Ends (TlsConnection.readLineLoop env c maxLen n) D (fun found t =>
      found = false ∧ (R.CutOff t ∨ maxLen < line.length) ∨
        found = true ∧ R.Unread (line ++ '\n' :: rest) t ∧ '\n' ∈ t.state.rbuf) E := by
  induction n generalizing D with
  | zero => omega
  | succ n ih =>
    unfold TlsConnection.readLineLoop
    rw [ends_bind, ends_read, ends_ite]
    refine ⟨fun hFound => .inr ⟨rfl, hD, by simpa using hFound⟩, fun hNone => ?_⟩
    obtain ⟨more, hMore, hLeft⟩ := hD.buffered_short (by simpa using hNone)
    have hLength := congrArg List.length hMore
    rw [List.length_append] at hLength
    rw [ends_ite]
    refine ⟨fun hLong => .inl ⟨rfl, .inr (by omega)⟩, fun _ => ?_⟩
    rw [ends_bind]
    refine (fill_ends hD).mono (fun rv t ht => ?_) fun _ => id
    rw [ends_ite]
    rcases ht with ⟨hrv, -, u, hEnded, hu⟩ | ⟨hrv, hUnread, hGrown⟩
    · exact ⟨fun _ => .inl ⟨rfl, .inl ⟨u, hLeft u hu, hEnded⟩⟩, fun h => absurd hrv h⟩
    · exact ⟨fun h => by omega, fun _ => ih hUnread (by omega) (by omega)⟩

theorem buffered_line {buf u : Text} (hLine : '\n' ∉ line) (hMem : '\n' ∈ buf)
    (h : buf ++ u = line ++ '\n' :: rest) : ∃ left, buf = line ++ '\n' :: left ∧ left ++ u = rest := by
  rcases List.append_eq_append_iff.mp h with ⟨mid, hLineEq, -⟩ | ⟨mid, hBuf, hRest⟩
  · exact absurd (hLineEq ▸ List.mem_append_left mid hMem) hLine
  · cases mid with
    | nil =>
      rw [hBuf, List.append_nil] at hMem
      exact absurd hMem hLine
    | cons ch left =>
      obtain ⟨rfl, hLeft⟩ := List.cons.inj hRest
      exact ⟨left, hBuf, hLeft.symm⟩

theorem idxOf_break (hLine : '\n' ∉ line) : (line ++ '\n' :: rest).idxOf '\n' = line.length := by
  rw [List.idxOf_append_of_notMem hLine, List.idxOf_cons_self, Nat.add_zero]

/-- A line is read whole if it is not too long. -/
theorem readLine_ends (hLine : '\n' ∉ line) (maxLen : Nat)
    (hD : R.Unread (line ++ '\n' :: rest) D) :
    Ends (TlsConnection.readLine env c maxLen) D
      (fun a t => R.CutOff t ∧ a = none ∨ if line.length ≤ maxLen then
        a = some (TlsConnection.stripReturn line) ∧ R.Unread rest t else a = none) E := by
  unfold TlsConnection.readLine
  rw [ends_bind]
  refine (readLineLoop_ends maxLen (maxLen + 2) hD (by omega) (by omega)).mono
    (fun found t ht => ?_) fun _ => id
  rw [ends_ite]
  rcases ht with ⟨rfl, hCutOff | hLong⟩ | ⟨rfl, ⟨u, hUpcoming, hw⟩, hMem⟩
  · exact ⟨nofun, fun _ => .inl ⟨hCutOff, rfl⟩⟩
  · refine ⟨nofun, fun _ => .inr ?_⟩
    rw [if_neg (by omega)]
  · refine ⟨fun _ => ?_, fun h => absurd rfl h⟩
    obtain ⟨left, hBuf, hLeft⟩ := buffered_line hLine hMem hw
    have hPos : t.state.rbuf.idxOf '\n' = line.length := by
      rw [hBuf]
      exact idxOf_break hLine
    rw [ends_bind, ends_read]
    dsimp only
    rw [hPos]
    by_cases hMax : line.length ≤ maxLen
    · rw [if_neg (Nat.not_lt.mpr hMax), ends_bind, ends_update, ends_pure, if_pos hMax]
      refine .inr ⟨?_, u, hUpcoming, ?_⟩
      · rw [hBuf, List.take_left]
      · change t.state.rbuf.drop (line.length + 1) ++ u = rest
        rw [hBuf, ← List.drop_drop, List.drop_left, List.drop_one, List.tail_cons, hLeft]
    · rw [if_pos (Nat.not_le.mp hMax)]
      refine .inr ?_
      rw [if_neg hMax]

theorem stripReturn_crlf (line : Text) : TlsConnection.stripReturn (line ++ ['\r']) = line := by
  simp [TlsConnection.stripReturn]

theorem readLine_crlf (hLine : '\n' ∉ line) (maxLen : Nat)
    (hD : R.Unread (line ++ Text.crlf ++ rest) D) :
    Ends (TlsConnection.readLine env c maxLen) D
      (fun a t => R.CutOff t ∧ a = none ∨
        if line.length < maxLen then a = some line ∧ R.Unread rest t else a = none) E := by
  have hBreak : '\n' ∉ line ++ ['\r'] := by simpa using hLine
  have hWire : line ++ Text.crlf ++ rest = line ++ ['\r'] ++ '\n' :: rest := by simp [Text.crlf]
  rw [hWire] at hD
  have hRead := readLine_ends (E := E) hBreak maxLen hD
  simpa only [stripReturn_crlf, List.length_append, List.length_singleton, Nat.succ_le_iff] using hRead

end Lines

section Blocks

theorem readLoop_ends (bytes n : Nat) (hD : R.Unread w D) (hn : bytes ≤ n + D.state.rbuf.length) :
    Ends (TlsConnection.readLoop env c bytes n) D (fun _ t => R.CutOff t ∨
      R.Unread w t ∧ bytes ≤ t.state.rbuf.length ∨ t.state.rbuf = w ∧ w.length < bytes) E := by
  induction n generalizing D with
  | zero => exact .inr (.inl ⟨hD, by omega⟩)
  | succ n ih =>
    unfold TlsConnection.readLoop
    rw [ends_bind, ends_read, ends_ite]
    refine ⟨fun hShort => ?_, fun hLong => .inr (.inl ⟨hD, by omega⟩)⟩
    rw [ends_bind]
    refine (fill_ends hD).mono (fun rv t ht => ?_) fun _ => id
    rw [ends_ite]
    rcases ht with ⟨hrv, hBuf, u, hEnded, hu⟩ | ⟨hrv, hUnread, hGrown⟩
    · refine ⟨fun _ => ?_, fun h => absurd hrv h⟩
      cases u with
      | nil =>
        rw [List.append_nil] at hu
        refine .inr (.inr ⟨hBuf.trans hu, ?_⟩)
        rw [← hu]
        exact hShort
      | cons ch u => exact .inl ⟨ch :: u, nofun, hEnded⟩
    · exact ⟨fun h => by omega, fun _ => ih hUnread (by omega)⟩

/-- A block is read whole, or as far as there is any. -/
theorem readBytes_ends (bytes : Nat) (hD : R.Unread w D) :
    Ends (TlsConnection.readBytes env c bytes) D (fun a t => R.CutOff t ∨
      a = w.take bytes ∧ (bytes ≤ w.length → R.Unread (w.drop bytes) t)) E := by
  unfold TlsConnection.readBytes
  rw [ends_bind]
  refine (readLoop_ends bytes bytes hD (by omega)).mono (fun _ t ht => ?_) fun _ => id
  rw [ends_bind, ends_read, ends_bind, ends_update, ends_pure]
  rcases ht with hCutOff | ⟨⟨u, hUpcoming, rfl⟩, hEnough⟩ | ⟨rfl, hShort⟩
  · exact .inl hCutOff
  · refine .inr ⟨(List.take_append_of_le_length hEnough).symm, fun _ => ⟨u, hUpcoming, ?_⟩⟩
    exact (List.drop_append_of_le_length hEnough).symm
  · exact .inr ⟨rfl, fun h => by omega⟩

end Blocks

def firstAnswer : List (Sigma NetAnswer) → Text → Received
  | [], ch :: s => .data ch s
  | _, _ => .closed

/-- The peer that sends `w` with the first answer and closes the connection. -/
def atOnce (w : Text) : Environment NetAnswer := fun before r =>
  match r with
  | .fill .. => firstAnswer before w
  | .handshake .. => .full
  | .connect .. | .initCtx _ | .openSsl _ | .verifyCert .. | .send .. => true
  | .createLocal _ | .openLocal _ | .writeLocal _ => true
  | .exceptionMessage _ | .peerAddress _ | .hostName | .smtpTime | .messageNumber => []
  | .readLocal => .closed

def ofText (w : Text) : Source (atOnce w) 0 where
  upcoming u tr := u = if tr.isEmpty then w else []
  ended u tr := u = [] ∧ (tr = [] → w = [])
  data {u tr secure ch s} hu h := by
    change firstAnswer tr w = .data ch s at h
    unfold firstAnswer at h
    split at h
    · cases h
      exact ⟨[], by rw [List.append_nil]; exact hu, rfl⟩
    · cases h
  stop {u tr secure r} hu h hEnd := by
    change firstAnswer tr w = r at h
    subst hu
    refine ⟨?_, nofun⟩
    cases tr with
    | nil =>
      cases w with
      | nil => rfl
      | cons ch s =>
        rw [← h] at hEnd
        rcases hEnd with hEnd | hEnd <;> cases hEnd
    | cons => rfl
  message h := ⟨h.1, nofun⟩

theorem ofText_whole (w : Text) (D : Dialogue NetAnswer TlsConnection) : ¬(ofText w).CutOff D := by
  rintro ⟨u, hu, hEnded, -⟩
  exact hu hEnded

theorem ofText_unread (w : Text) (t : TlsConnection) (ht : t.rbuf = []) : (ofText w).Unread w ⟨t, []⟩ :=
  ⟨w, rfl, by rw [ht]; rfl⟩

end Source

end DataReel
