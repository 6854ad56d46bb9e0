import DataReel.Net.FtpInSync

/-! # Which command a reply answers

A command is sent when no reply is left, and its answer is read in full. A
transfer reads its final reply wherever it stops, except where the data
connection has no TLS.
-/

namespace DataReel

open Program

namespace FtpClient

variable {S : Server} {env : Environment NetAnswer} {w : Text}
  {D : Dialogue NetAnswer FtpClient}

section Commands

/-- Every reply that was used is the answer to its command, if the run is dependable. -/
def Known (S : Server) (D : Dialogue NetAnswer FtpClient) : Prop :=
  Dependable D.trace → S.AllAnswered D.state.answers

theorem AdriftAt.known (h : AdriftAt S D) : Known S D := fun hDep => (h hDep).1

theorem InSync.known (h : InSync S w D) : Known S D :=
  h.elim AdriftAt.known fun h => h.known

/-- What a server sends after its answer to a command. -/
def Server.rest (S : Server) (before : List (Sigma NetAnswer)) (cmd : Text) : Text :=
  ((S.final before cmd).map Reply.wire).getD []

/-- After a command: it was not sent, or its answer was read. -/
def Answered (S : Server) (before : List (Sigma NetAnswer)) (cmd expect : Text) (rv : Int)
    (t : Dialogue NetAnswer FtpClient) : Prop :=
  AdriftAt S t ∨ LiveAt S [] t ∧ rv ≠ 0 ∨ LiveAt S (S.rest before cmd) t ∧
    (rv = 0 ↔ Text.startsWith (Text.ofInt (S.answer before cmd).value) expect = true)

theorem broken_idle : Idle fun D => ¬ Dependable D.trace where
  message h := fun hDep => h hDep.2
  fill h := fun hDep => h hDep.2
  error h := h
  reply h := h
  connError h := h
  connRbuf h := h

theorem adrift_of_broken (h : ¬ Dependable D.trace) : AdriftAt S D := fun hDep => absurd hDep h

theorem lineOf_crlf (cmd : Text) :
    (cmd ++ Text.crlf).take ((cmd ++ Text.crlf).length - 2) = cmd := by
  simp [Text.crlf]

/-- A command goes to the server when no reply is left to read. -/
theorem sendLine_ends (hD : InSync S [] D) (cmd : Text) :
    Ends (onConn (TlsConnection.sendLine env 0 cmd)) D (fun sent t =>
      sent < 0 ∧ InSync S [] t ∨
        0 ≤ sent ∧ (¬ Dependable t.trace ∨ LiveAt S (S.replies D.trace cmd) t)) (InSync S []) := by
  unfold onConn TlsConnection.sendLine TlsConnection.send
  rw [ends_zoom, ends_bind, ends_read, ends_ite]
  refine ⟨fun _ => .inl ⟨by decide, hD⟩, fun _ => ?_⟩
  rw [ends_bind, ends_ask]
  cases hSent : env D.trace (.send 0 D.state.conn.secure (cmd ++ Text.crlf)) with
  | true =>
    refine .inr ⟨Int.natCast_nonneg _, ?_⟩
    rcases hD with hAdrift | hLive
    · refine .inl fun hDep => ?_
      have hLost := (hAdrift hDep.2).2
      rw [hDep.1 rfl] at hLost
      exact nomatch hLost
    · refine .inr ⟨fun hDep => hLive.known hDep.2, hLive.kept, ?_⟩
      obtain ⟨-, hStream⟩ := List.append_eq_nil_iff.mp hLive.pending
      obtain ⟨hBuf, -⟩ := List.append_eq_nil_iff.mp hLive.pending
      change D.state.conn.rbuf ++ (S.stream D.trace ++
        S.replies D.trace ((cmd ++ Text.crlf).take ((cmd ++ Text.crlf).length - 2))) = _
      rw [hBuf, hStream, lineOf_crlf, List.nil_append, List.nil_append]
  | false =>
    refine .inl ⟨by decide, ?_⟩
    rcases hD with hAdrift | hLive
    · refine .inl fun hDep => ?_
      have hLost := (hAdrift hDep.2.2).2
      rw [hDep.2.1 rfl] at hLost
      exact nomatch hLost
    · exact .inr ⟨fun hDep => hLive.known hDep.2.2, hLive.kept, hLive.pending⟩

/-- The reply that `Command` uses is the answer to its command. -/
theorem command_ends (hS : S.Delivers env) (hD : InSync S [] D) (cmd expect : Text) :
    Ends (command env cmd expect) D (Answered S D.trace cmd expect) (InSync S []) := by
  unfold command
  rw [ends_ite]
  refine ⟨fun _ => ?_, fun _ => ?_⟩
  · exact hD.imp_right fun h => .inl ⟨h, by decide⟩
  rw [ends_bind, ends_history, ends_bind]
  refine (sendLine_ends hD cmd).mono (fun sent t ht => ?_) fun _ => id
  rw [ends_ite]
  rcases ht with ⟨hSent, ht⟩ | ⟨hSent, ht⟩
  · refine ⟨fun _ => ?_, fun h => absurd hSent h⟩
    exact ht.imp_right fun h => .inl ⟨h, by decide⟩
  refine ⟨fun h => by omega, fun _ => ?_⟩
  rw [ends_bind]
  rcases ht with hBroken | hLive
  · refine (broken_idle.keeps_readReply t hBroken).mono (fun code u hu => ?_) fun u hu =>
      .inl (adrift_of_broken hu)
    rw [ends_ite]
    refine ⟨fun _ => .inl (adrift_of_broken hu), fun _ => ?_⟩
    rw [ends_bind, ends_update, ends_bind, ends_read, ends_ite]
    exact ⟨fun _ => .inl (adrift_of_broken hu), fun _ => .inl (adrift_of_broken hu)⟩
  · refine (readReply_live hS hLive).mono (fun code u hu => ?_) fun _ => id
    rw [ends_ite]
    rcases hu with ⟨hAdrift, hCode⟩ | ⟨hAfter, hCode, hLast, hText⟩
    · exact ⟨fun _ => .inl hAdrift, fun h => absurd hCode h⟩
    · have hPos : 0 < code := by
        have := (S.answer D.trace cmd).code.1
        rw [hCode, Reply.value]
        omega
      refine ⟨fun h => by omega, fun _ => ?_⟩
      rw [ends_bind, ends_update, ends_bind, ends_read, ends_ite]
      have hRecorded : LiveAt S (S.rest D.trace cmd)
          { u with state := record D.trace cmd u.state } := by
        refine ⟨fun hDep e he => ?_, hAfter.kept, hAfter.pending⟩
        rcases List.mem_cons.mp he with rfl | he
        · exact hText
        · exact hAfter.known hDep e he
      refine ⟨fun hExpect => .inr (.inr ⟨hRecorded, ?_⟩), fun hExpect => .inr (.inr ⟨hRecorded, ?_⟩)⟩
      · rw [← hLast]
        exact iff_of_true rfl hExpect
      · rw [← hLast]
        exact iff_of_false (by decide) hExpect

theorem keeps_command_inSync (hS : S.Delivers env) {cmd : Text} (hCmd : isTransfer cmd = false)
    (expect : Text) : Program.Keeps (InSync S []) (command env cmd expect) := by
  intro D hD
  have hRest : S.rest D.trace cmd = [] := by
    unfold Server.rest
    cases hFinal : S.final D.trace cmd with
    | none => rfl
    | some r =>
      have hTransfer := ((S.single D.trace cmd).mp (by rw [hFinal]; rfl)).1
      rw [hCmd] at hTransfer
      exact nomatch hTransfer
  refine (command_ends hS hD cmd expect).mono (fun rv t ht => ?_) fun _ => id
  rcases ht with hAdrift | ⟨hLive, -⟩ | ⟨hLive, -⟩
  · exact .inl hAdrift
  · exact .inr hLive
  · exact .inr (hRest ▸ hLive)

theorem ofInt_hundreds {n : Nat} (hLow : 100 ≤ n) (hHigh : n < 1000) :
    ∃ s, Text.ofInt n = (n / 100).digitChar :: s := by
  rw [Text.ofInt_natCast, Nat.toDigits_of_base_le (by decide) (by omega),
    Nat.toDigits_of_base_le (by decide) (by omega), Nat.toDigits_of_lt_base (by omega),
    Nat.div_div_eq_div_mul]
  exact ⟨_, rfl⟩

theorem startsWith_one {n : Nat} (hLow : 100 ≤ n) (hHigh : n < 600) :
    Text.startsWith (Text.ofInt n) "1".toList = decide (n < 200) := by
  obtain ⟨s, hDigits⟩ := ofInt_hundreds hLow (by omega)
  have hFirst : ∀ k < 6, 1 ≤ k → ('1' == k.digitChar) = decide (k < 2) := by decide
  have hHundreds : n / 100 < 2 ↔ n < 200 := by omega
  calc Text.startsWith (Text.ofInt n) "1".toList
      = ('1' == (n / 100).digitChar && true) := by rw [hDigits]; rfl
    _ = decide (n / 100 < 2) := by rw [Bool.and_true, hFirst _ (by omega) (by omega)]
    _ = decide (n < 200) := by rw [decide_eq_decide]; exact hHundreds

/-- A transfer that is accepted leaves its final reply, one that is refused none. -/
theorem transfer_ends (hS : S.Delivers env) {cmd : Text} (hCmd : isTransfer cmd = true)
    (hD : InSync S [] D) :
    Ends (command env cmd "1".toList) D (fun rv t => if rv = 0 then ∃ r : Reply, InSync S r.wire t
      else InSync S [] t) (InSync S []) := by
  refine (command_ends hS hD cmd _).mono (fun rv t ht => ?_) fun _ => id
  rcases ht with hAdrift | ⟨hLive, hrv⟩ | ⟨hLive, hrv⟩
  · split
    · exact ⟨S.greeting [], .inl hAdrift⟩
    · exact .inl hAdrift
  · rw [if_neg hrv]
    exact .inr hLive
  · obtain ⟨n, hn⟩ : ∃ n : Nat, (S.answer D.trace cmd).value = n :=
      ⟨_, (Int.toNat_of_nonneg (by have := (S.answer D.trace cmd).code.1; unfold Reply.value; omega)).symm⟩
    have hBounds := (S.answer D.trace cmd).code
    change 100 ≤ (S.answer D.trace cmd).value ∧ (S.answer D.trace cmd).value < 600 at hBounds
    have hPreliminary : rv = 0 ↔ (S.answer D.trace cmd).preliminary = true := by
      rw [hrv, hn, startsWith_one (by omega) (by omega), Reply.preliminary, hn]
      simp only [decide_eq_true_eq]
      omega
    have hSingle := S.single D.trace cmd
    rw [hCmd, ← hPreliminary] at hSingle
    unfold Server.rest at hLive
    cases hFinal : S.final D.trace cmd with
    | none =>
      rw [hFinal] at hSingle hLive
      rw [if_neg fun h0 => nomatch hSingle.mpr ⟨rfl, h0⟩]
      exact .inr hLive
    | some r =>
      rw [hFinal] at hSingle hLive
      rw [if_pos (hSingle.mp rfl).2]
      exact ⟨r, .inr hLive⟩

theorem AdriftAt.inSync (h : AdriftAt S D) : InSync S w D := .inl h

theorem readReply_ends (hS : S.Delivers env) {r : Reply} (hD : InSync S r.wire D) :
    Ends (readReply env) D (fun _ t => InSync S [] t) (InSync S []) := by
  rcases hD with hAdrift | hLive
  · exact (adrift_idle.keeps_readReply D hAdrift).mono (fun _ _ ht => .inl ht) fun _ ht => .inl ht
  · rw [← List.append_nil r.wire] at hLive
    exact (readReply_live hS hLive).mono (fun _ _ ht => ht.imp And.left And.left) fun _ => id

theorem keeps_state {f : FtpClient → FtpClient} (hConn : ∀ s, (f s).conn = s.conn)
    (hAnswers : ∀ s, (f s).answers = s.answers) :
    Program.Keeps (InSync S w) (update f : NetM FtpClient Unit) := by
  intro D hD
  unfold InSync AdriftAt LiveAt at hD
  rw [← hConn, ← hAnswers] at hD
  exact hD

theorem keeps_fail_inSync (msg : Text) : Program.Keeps (InSync S w) (fail msg) :=
  .bind (keeps_state (fun _ => rfl) fun _ => rfl) fun _ => keeps_pure _

theorem keeps_ask_inSync {r : NetRequest} (hr : neutral r = true) (hBreaks : ∀ a, breaks ⟨r, a⟩ = false) :
    Program.Keeps (InSync S w) (ask env r : NetM FtpClient (NetAnswer r)) := fun _ hD =>
  InStep.cons hD hr (hBreaks _)

theorem keeps_close : Program.Keeps (InSync S []) (onConn TlsConnection.close) := by
  intro D hD
  refine hD.imp id fun h => ⟨h.known, h.kept, ?_⟩
  exact (List.append_eq_nil_iff.mp h.pending).2

theorem keeps_onData_inSync {α : Type} {x : NetM TlsConnection α}
    (hx : ∀ X buf, Program.Keeps (fun d => InStep S X buf w d.trace) x) :
    Program.Keeps (InSync S w) (onData x) := fun D hD =>
  ends_zoom.mpr (hx _ D.state.conn.rbuf { state := D.state.data, trace := D.trace } hD)

theorem inStep_passive (X : Prop) (buf w : Text) :
    TlsConnection.Passive 1 fun d => InStep S X buf w d.trace where
  message h := h.cons rfl rfl
  fill h := h.cons rfl rfl
  error h := h
  rbuf h := h

theorem keeps_sendData (bytes : Text) :
    Program.Keeps (InSync S w) (onData (TlsConnection.send env 1 bytes)) := by
  refine keeps_onData_inSync fun X buf => .bind keeps_read fun t => .ite ?_ ?_
  · exact (inStep_passive X buf w).keeps_fail _
  · refine .bind (fun d h => h.cons rfl rfl) fun _ => .ite (keeps_pure _) ?_
    exact (inStep_passive X buf w).keeps_failMessage

theorem keeps_startTls_inSync : Program.Keeps (InSync S []) (onConn (TlsConnection.startTls env 0)) := by
  intro D hD
  unfold onConn
  rw [ends_zoom]
  refine (startTls_ends (S := S) (d := { state := D.state.conn, trace := D.trace })
    (E := fun _ => False) hD).mono (fun rv u hu => ?_) fun _ => False.elim
  obtain ⟨hBuf, hStep, -⟩ := hu
  refine hStep.imp id fun hLive => ⟨hLive.known, hLive.kept, ?_⟩
  obtain ⟨hEmpty, hStream⟩ := List.append_eq_nil_iff.mp hLive.pending
  rw [hStream, List.append_nil]
  exact hBuf hEmpty

end Commands

section Calls

variable (hS : S.Delivers env)

include hS

theorem keeps_connect_inSync (host : Text) (port : Int) (security : MailSecurity) :
    Program.Keeps (InSync S []) (connect env host port security) := by
  intro D hD
  unfold connect
  rw [ends_bind, ends_update, ends_bind, onConn, ends_zoom]
  refine (connect_ends (S := S) (d := { state := D.state.conn, trace := D.trace }) (E := fun _ => False)
    hD.known host port _).mono (fun rv t ht => ?_) fun _ => False.elim
  rw [ends_ite]
  refine ⟨fun hrv => ?_, fun hrv => ?_⟩
  · rw [if_neg hrv] at ht
    exact ht
  rw [if_pos (not_not.mp hrv)] at ht
  rw [ends_bind]
  refine Ends.mono (readReply_ends hS (r := S.greeting D.trace) ?_) (fun code u hu => ?_) fun _ => id
  · exact ht
  have hUpgrade (s : FtpClient) : Program.Keeps (InSync S []) (if security = .startTls then do
      let rv ← command env "AUTH TLS".toList "234".toList
      if rv ≠ 0 then
        onConn TlsConnection.close
        fail ("FTP exception: ".toList ++ host ++ " does not accept AUTH TLS".toList)
      else
        let started ← onConn (TlsConnection.startTls env 0)
        let s ← read
        if started ≠ 0 then fail s.conn.error else return 0
    else return 0 : NetM FtpClient Int) := by
    refine .ite (.bind (keeps_command_inSync hS rfl _) fun _ => .ite ?_ ?_) (keeps_pure _)
    · exact .bind keeps_close fun _ => keeps_fail_inSync _
    · exact .bind keeps_startTls_inSync fun _ => .bind keeps_read fun _ =>
        .ite (keeps_fail_inSync _) (keeps_pure _)
  refine Program.Keeps.bind keeps_read (fun s => ?_) u hu
  exact .ite (keeps_pure _) (.ite (keeps_fail_inSync _) (hUpgrade s))

theorem keeps_dataPort_inSync : Program.Keeps (InSync S []) (dataPort env) := by
  refine .bind (keeps_command_inSync hS rfl _) fun _ => .bind keeps_read fun _ => .ite ?_ (keeps_pure _)
  refine .bind (keeps_command_inSync hS rfl _) fun _ => .bind keeps_read fun s => .ite (keeps_pure _) ?_
  cases passivePort s.lastReply with
  | none => exact .bind (keeps_fail_inSync _) fun _ => keeps_pure _
  | some port => exact keeps_pure _

omit hS in
theorem keeps_openSocket_inSync (port : Int) : Program.Keeps (InSync S []) (openSocket env port) := by
  refine .bind (keeps_ask_inSync rfl fun _ => rfl) fun _ =>
    .bind (keeps_ask_inSync rfl fun _ => rfl) fun _ => .ite (keeps_pure _) ?_
  exact .bind (keeps_ask_inSync rfl fun _ => rfl) fun _ => keeps_fail_inSync _

/-- A transfer that may go on has a final reply to read. -/
def Opened (S : Server) (rv : Int) (t : Dialogue NetAnswer FtpClient) : Prop :=
  if rv = 0 then ∃ r : Reply, InSync S r.wire t else InSync S [] t

omit hS in
/-- Without TLS on the data connection the final reply is left. -/
theorem attachData_inSync {r : Reply} (hD : InSync S r.wire D) :
    Ends (attachData env) D (Opened S) (InSync S []) := by
  unfold attachData onData
  rw [ends_bind, ends_read, ends_bind, ends_zoom]
  refine (attachClient_ends (S := S) (d := { state := D.state.data, trace := D.trace })
    (E := fun _ => False) hD _ _).mono (fun rv t ht => ?_) fun _ => False.elim
  refine ends_ite.mpr ⟨fun hrv => .inl (ht.2 hrv), fun _ => ?_⟩
  exact ⟨r, ht.1⟩

theorem openData_inSync {cmd : Text} (hCmd : isTransfer cmd = true) (hD : InSync S [] D) :
    Ends (openData env cmd) D (Opened S) (InSync S []) := by
  unfold openData
  rw [ends_bind, ends_update]
  refine (keeps_dataPort_inSync hS).ends_bind (by exact hD) fun port u hu => ?_
  cases port with
  | none => exact hu
  | some port =>
    refine ends_ite.mpr ⟨fun _ => hu, fun _ => ?_⟩
    refine (keeps_openSocket_inSync port).ends_bind hu fun rv v hv => ?_
    refine ends_ite.mpr ⟨fun _ => hv, fun _ => ?_⟩
    rw [ends_bind]
    refine (transfer_ends hS hCmd hv).mono (fun rv x hx => ?_) fun _ => id
    refine ends_ite.mpr ⟨fun hrv => ?_, fun hrv => ?_⟩
    · rw [if_neg hrv] at hx
      exact hx
    · rw [if_pos (not_not.mp hrv)] at hx
      obtain ⟨r, hr⟩ := hx
      exact attachData_inSync hr

omit hS in
theorem keeps_closeData : Program.Keeps (InSync S w) (onData TlsConnection.close) :=
  keeps_onData_inSync fun _ _ _ h => h

theorem finishData_inSync {r : Reply} (hD : InSync S r.wire D) :
    Ends (finishData env) D (fun _ t => InSync S [] t) (Known S) := by
  unfold finishData
  rw [ends_bind]
  refine (keeps_closeData D hD).mono (fun _ t ht => ?_) fun _ => InSync.known
  rw [ends_bind]
  refine (readReply_ends hS ht).mono (fun code u hu => ?_) fun _ => InSync.known
  have hRest : Program.Keeps (InSync S []) (do
      let s ← read
      if code < 0 then return -1
      else if s.lastCode / 100 ≠ 2 then fail ("FTP exception: ".toList ++ s.lastReply)
      else return 0 : NetM FtpClient Int) :=
    .bind keeps_read fun _ => .ite (keeps_pure _) (.ite (keeps_fail_inSync _) (keeps_pure _))
  exact (hRest u hu).mono (fun _ _ h => h) fun _ => InSync.known

theorem abortData_inSync {r : Reply} (msg : Text) (hD : InSync S r.wire D) :
    Ends (abortData env msg) D (fun _ t => InSync S [] t) (Known S) := by
  unfold abortData
  rw [ends_bind]
  refine (keeps_closeData D hD).mono (fun _ t ht => ?_) fun _ => InSync.known
  rw [ends_bind]
  refine (readReply_ends hS ht).mono (fun code u hu => ?_) fun _ => InSync.known
  exact (keeps_fail_inSync msg u hu).mono (fun _ _ h => h) fun _ => InSync.known

theorem finished_inSync {r : Reply} {α : Type} (f : Int → α) (hD : InSync S r.wire D) :
    Ends (finishData env >>= fun rv => pure (f rv)) D (fun _ t => InSync S [] t) (Known S) :=
  ends_bind.mpr ((finishData_inSync hS hD).mono (fun _ _ h => h) fun _ => id)

theorem aborted_inSync {r : Reply} {α : Type} (msg : Text) (f : Int → α) (hD : InSync S r.wire D) :
    Ends (abortData env msg >>= fun rv => pure (f rv)) D (fun _ t => InSync S [] t) (Known S) :=
  ends_bind.mpr ((abortData_inSync hS msg hD).mono (fun _ _ h => h) fun _ => id)

theorem transfer_inSync {α : Type} {cmd : Text} {a : α} {x : NetM FtpClient α}
    (hCmd : isTransfer cmd = true)
    (hx : ∀ (r : Reply) t, InSync S r.wire t → Ends x t (fun _ u => InSync S [] u) (Known S))
    (hD : InSync S [] D) :
    Ends (openData env cmd >>= fun rv => if rv ≠ 0 then pure a else x) D
      (fun _ t => InSync S [] t) (Known S) := by
  rw [ends_bind]
  refine (openData_inSync hS hCmd hD).mono (fun rv t ht => ?_) fun _ => InSync.known
  refine ends_ite.mpr ⟨fun hrv => ?_, fun hrv => ?_⟩
  · rw [Opened, if_neg hrv] at ht
    exact ht
  · rw [Opened, if_pos (not_not.mp hrv)] at ht
    obtain ⟨r, hr⟩ := ht
    exact hx r t hr

omit hS in
theorem step_inSync {α β : Type} {x : NetM FtpClient α} {f : α → NetM FtpClient β}
    {r : Reply} (hx : Program.Keeps (InSync S r.wire) x) (hD : InSync S r.wire D)
    (hf : ∀ a t, InSync S r.wire t → Ends (f a) t (fun _ u => InSync S [] u) (Known S)) :
    Ends (x >>= f) D (fun _ t => InSync S [] t) (Known S) :=
  ends_bind.mpr ((hx D hD).mono (fun a t ht => hf a t ht) fun _ => InSync.known)

theorem getLoop_inSync {r : Reply} (localFname : Text) (bytes : Int) (n : Nat)
    (hD : InSync S r.wire D) :
    Ends (getLoop env localFname bytes n) D (fun _ t => InSync S [] t) (Known S) := by
  induction n generalizing bytes D with
  | zero => exact hD.known
  | succ n ih =>
    have hRead : Program.Keeps (InSync S r.wire) (onData (TlsConnection.readSome env 1 65536)) :=
      keeps_onData_inSync fun X buf => (inStep_passive X buf _).keeps_readSome _
    refine step_inSync hRead hD fun received t ht => ?_
    refine ends_ite.mpr ⟨fun _ => finished_inSync hS _ ht, fun _ => ends_ite.mpr ⟨fun _ => ?_, fun _ => ?_⟩⟩
    · exact step_inSync keeps_read ht fun _ u hu => aborted_inSync hS _ _ hu
    · refine step_inSync (keeps_ask_inSync rfl fun _ => rfl) ht fun written u hu => ?_
      exact ends_ite.mpr ⟨fun _ => ih _ hu, fun _ => aborted_inSync hS _ _ hu⟩

theorem putLoop_inSync {r : Reply} (localFname : Text) (bytes : Int) (n : Nat)
    (hD : InSync S r.wire D) :
    Ends (putLoop env localFname bytes n) D (fun _ t => InSync S [] t) (Known S) := by
  induction n generalizing bytes D with
  | zero => exact hD.known
  | succ n ih =>
    refine step_inSync (keeps_ask_inSync rfl fun _ => rfl) hD fun part t ht => ?_
    cases part with
    | closed => exact finished_inSync hS _ ht
    | failed => exact aborted_inSync hS _ _ ht
    | data c s =>
      refine step_inSync (keeps_sendData _) ht fun sent u hu => ?_
      refine ends_ite.mpr ⟨fun _ => ?_, fun _ => ih _ hu⟩
      exact step_inSync keeps_read hu fun _ v hv => aborted_inSync hS _ _ hv

theorem download_inSync (n : Nat) {cmd : Text} (msg : Text) (hCmd : isTransfer cmd = true)
    (hD : InSync S [] D) :
    Ends (download env n cmd msg) D (fun _ t => InSync S [] t) (Known S) := by
  refine transfer_inSync hS hCmd (fun r t ht => ?_) hD
  have hRead : Program.Keeps (InSync S r.wire) (onData (TlsConnection.readAll env 1 none n)) :=
    keeps_onData_inSync fun X buf => (inStep_passive X buf _).keeps_readAll _ _
  refine step_inSync hRead ht fun out u hu => ?_
  cases out with
  | none => exact step_inSync keeps_read hu fun _ v hv => aborted_inSync hS _ _ hv
  | some out => exact finished_inSync hS _ hu

theorem get_inSync (n : Nat) (remote localFname : Text) (hD : InSync S [] D) :
    Ends (get env n remote localFname) D (fun _ t => InSync S [] t) (Known S) := by
  unfold get
  rw [ends_bind]
  refine (keeps_ask_inSync rfl (fun _ => rfl) D hD).mono (fun created t ht => ?_) fun _ => InSync.known
  refine ends_ite.mpr ⟨fun _ => ?_, fun _ => ?_⟩
  · exact transfer_inSync hS rfl (fun r u hu => getLoop_inSync hS _ _ _ hu) ht
  · exact ht

theorem putString_inSync (bytes remote : Text) (hD : InSync S [] D) :
    Ends (putString env bytes remote) D (fun _ t => InSync S [] t) (Known S) := by
  refine transfer_inSync hS rfl (fun r t ht => ?_) hD
  refine step_inSync (keeps_sendData _) ht fun sent u hu => step_inSync keeps_read hu fun _ v hv => ?_
  exact ends_ite.mpr ⟨fun _ => abortData_inSync hS _ hv, fun _ => finishData_inSync hS hv⟩

theorem put_inSync (n : Nat) (localFname remote : Text) (hD : InSync S [] D) :
    Ends (put env n localFname remote) D (fun _ t => InSync S [] t) (Known S) := by
  unfold put
  rw [ends_bind]
  refine (keeps_ask_inSync rfl (fun _ => rfl) D hD).mono (fun created t ht => ?_) fun _ => InSync.known
  refine ends_ite.mpr ⟨fun _ => ?_, fun _ => ?_⟩
  · exact transfer_inSync hS rfl (fun r u hu => putLoop_inSync hS _ _ _ hu) ht
  · exact ht

end Calls

section Sessions

variable (hS : S.Delivers env)

include hS

theorem keeps_login_inSync (user passwd : Text) :
    Program.Keeps (InSync S []) (login env user passwd) := by
  have hProtect : Program.Keeps (InSync S []) (protect env) := by
    refine .bind (keeps_command_inSync hS rfl _) fun _ => .ite (keeps_pure _) ?_
    exact .bind (keeps_command_inSync hS rfl _) fun _ => .ite (keeps_pure _) (keeps_command_inSync hS rfl _)
  refine .bind (keeps_command_inSync hS rfl _) fun _ => .bind keeps_read fun _ => .ite (keeps_pure _) ?_
  refine .ite (.bind (keeps_command_inSync hS rfl _) fun _ => .ite (keeps_pure _) hProtect) ?_
  exact .ite (keeps_fail_inSync _) hProtect

theorem keeps_pwd_inSync : Program.Keeps (InSync S []) (pwd env) := by
  refine .bind (keeps_command_inSync hS rfl _) fun _ => .bind keeps_read fun s => .ite (keeps_pure _) ?_
  cases following "\"".toList s.lastReply <;> exact keeps_pure _

omit hS in
theorem drop_inSync {α : Type} {x : NetM FtpClient α}
    (h : Ends x D (fun _ t => InSync S [] t) (Known S)) :
    Ends (x >>= fun _ => pure ()) D (fun _ t => InSync S [] t) (Known S) :=
  ends_bind.mpr (h.mono (fun _ _ ht => ht) fun _ => id)

omit hS in
theorem keeps_inSync {α : Type} {x : NetM FtpClient α} (hx : Program.Keeps (InSync S []) x)
    (hD : InSync S [] D) : Ends x D (fun _ t => InSync S [] t) (Known S) :=
  (hx D hD).mono (fun _ _ h => h) fun _ => InSync.known

/-- The public calls that send no transfer command of their own. -/
def Call.single : Call → Bool
  | .command cmd _ => !isTransfer cmd
  | _ => true

theorem exec_inSync {a : Call} (ha : a.single = true) (hD : InSync S [] D) :
    Ends (exec env a) D (fun _ t => InSync S [] t) (Known S) := by
  cases a with
  | setVerifyPeer on => exact hD
  | connect host port security =>
    exact drop_inSync (keeps_inSync (keeps_connect_inSync hS host port security) hD)
  | login user passwd => exact drop_inSync (keeps_inSync (keeps_login_inSync hS user passwd) hD)
  | type c => exact drop_inSync (keeps_inSync (keeps_command_inSync hS rfl _) hD)
  | list n path full =>
    refine drop_inSync (download_inSync hS n _ ?_ hD)
    cases full <;> cases path <;> rfl
  | chDir dir => exact drop_inSync (keeps_inSync (keeps_command_inSync hS rfl _) hD)
  | mkDir dir => exact drop_inSync (keeps_inSync (keeps_command_inSync hS rfl _) hD)
  | rmDir dir => exact drop_inSync (keeps_inSync (keeps_command_inSync hS rfl _) hD)
  | pwd => exact drop_inSync (keeps_inSync (keeps_pwd_inSync hS) hD)
  | size path =>
    have hSize : Program.Keeps (InSync S []) (size env path) :=
      .bind (keeps_command_inSync hS rfl _) fun _ => .bind keeps_read fun _ =>
        .ite (keeps_pure _) (keeps_pure _)
    exact drop_inSync (keeps_inSync hSize hD)
  | delete path => exact drop_inSync (keeps_inSync (keeps_command_inSync hS rfl _) hD)
  | rename path newPath =>
    have hRename : Program.Keeps (InSync S []) (rename env path newPath) :=
      .bind (keeps_command_inSync hS rfl _) fun _ => .ite (keeps_pure _) (keeps_command_inSync hS rfl _)
    exact drop_inSync (keeps_inSync hRename hD)
  | get n remote localFname => exact drop_inSync (get_inSync hS n remote localFname hD)
  | put n localFname remote => exact drop_inSync (put_inSync hS n localFname remote hD)
  | getString n remote => exact drop_inSync (download_inSync hS n _ rfl hD)
  | putString bytes remote => exact drop_inSync (putString_inSync hS bytes remote hD)
  | quit =>
    have hQuit : Program.Keeps (InSync S []) (quit env) :=
      .bind (keeps_command_inSync hS rfl _) fun _ => .bind keeps_close fun _ => keeps_pure _
    exact drop_inSync (keeps_inSync hQuit hD)
  | close => exact keeps_inSync keeps_close hD
  | command cmd expect =>
    have hCmd : isTransfer cmd = false := by simpa [Call.single] using ha
    exact drop_inSync (keeps_inSync (keeps_command_inSync hS hCmd _) hD)

theorem session_known {calls : List Call} (hCalls : ∀ a ∈ calls, a.single = true)
    (hD : InSync S [] D) : Ends (session env calls) D (fun _ => Known S) (Known S) := by
  induction calls generalizing D with
  | nil => exact hD.known
  | cons a calls ih =>
    unfold session
    rw [ends_bind]
    refine (exec_inSync hS (hCalls a List.mem_cons_self) hD).mono (fun _ t ht => ?_) fun _ => id
    exact ih (fun b hb => hCalls b (List.mem_cons_of_mem a hb)) ht

/-- Any calls in any order, any of which may fail anywhere. -/
theorem session_answers {calls : List Call} (hCalls : ∀ a ∈ calls, a.single = true)
    (hDep : Dependable (last (session env calls start)).trace) :
    ∀ e ∈ (last (session env calls start)).state.answers, S.Answers e := by
  have hStart : InSync S [] start := .inr ⟨fun _ => nofun, rfl, rfl⟩
  exact (session_known hS hCalls hStart).last hDep

omit hS in
/-- A reply of one line. -/
def Reply.line (s : Text) (long : 3 ≤ s.length)
    (code : 100 ≤ Text.atoi (s.take 3) ∧ Text.atoi (s.take 3) < 600)
    (fits : '\n' ∉ s ∧ s.length < 8192) (single : s[3]? ≠ some '-') : Reply where
  first := s
  more := []
  long := long
  code := code
  fits := by simpa using fits
  count := by simp
  whole := by rw [if_neg single]

omit hS in
/-- A server that accepts transfers and refuses all other commands. -/
def refusing : Server where
  greeting _ := .line "220 ready".toList (by decide) (by decide) (by decide) (by decide)
  answer _ cmd :=
    if isTransfer cmd then
      .line "150 ok".toList (by decide) (by decide) (by decide) (by decide)
    else if cmd = "EPSV".toList then
      .line "229 (|||2121|)".toList (by decide) (by decide) (by decide) (by decide)
    else
      .line "550 no".toList (by decide) (by decide) (by decide) (by decide)
  final _ cmd :=
    if isTransfer cmd then
      some (.line "226 done".toList (by decide) (by decide) (by decide) (by decide))
    else none
  single before cmd := by
    cases isTransfer cmd with
    | true => exact iff_of_true rfl ⟨rfl, rfl⟩
    | false => exact iff_of_false nofun nofun

omit hS in
/-- The next line on the wire. -/
def nextLine (stream : Text) : Text := stream.take (stream.idxOf '\n' + 1)

omit hS in
/-- The server's lines arrive one by one; data connections end their handshakes like this. -/
def serving (outcome : Handshake) : Environment NetAnswer := fun before r =>
  match r with
  | .fill 0 _ =>
    match nextLine (refusing.stream before) with
    | [] => .closed
    | c :: s => .data c s
  | .handshake _ _ offered => if offered then outcome else .full
  | .connect .. | .initCtx _ | .openSsl _ | .verifyCert .. | .send .. => true
  | .createLocal _ | .openLocal _ | .writeLocal _ => true
  | .exceptionMessage _ | .peerAddress _ | .hostName | .smtpTime | .messageNumber => []
  | .fill .. | .readLocal => .closed

omit hS in
theorem serving_delivers (outcome : Handshake) : refusing.Delivers (serving outcome) := by
  intro before secure c s h
  change (match nextLine (refusing.stream before) with
    | [] => Received.closed
    | c :: s => .data c s) = .data c s at h
  split at h
  · exact nomatch h
  · next hNext =>
    injection h with hc hs
    rw [← hc, ← hs, ← hNext]
    exact List.take_prefix _ _

omit hS in
theorem session_answers_list :
    (last (session (serving .resumed) [.connect "ftp".toList 990 .implicitTls,
      .list 1 [] true, .delete "a".toList] start)).state.answers ≠ [] ∧
    ∀ e ∈ (last (session (serving .resumed) [.connect "ftp".toList 990 .implicitTls,
      .list 1 [] true, .delete "a".toList] start)).state.answers, refusing.Answers e :=
  ⟨by decide +kernel, session_answers (serving_delivers .resumed) (by decide) (by decide +kernel)⟩

omit hS in
/-- A data connection without TLS leaves `226 done`, which is taken for the answer to `DELE`. -/
theorem session_answers_not :
    ¬ ∀ (S : Server) (env : Environment NetAnswer) (calls : List Call), S.Delivers env →
      (∀ a ∈ calls, a.single = true) →
      ∀ e ∈ (last (session env calls start)).state.answers, S.Answers e := by
  intro h
  have hAnswers := h refusing (serving .failed) [.connect "ftp".toList 990 .implicitTls,
    .list 1 [] true, .delete "a".toList] (serving_delivers .failed) (by decide)
  have hAll := List.all_eq_true.mpr fun e he => decide_eq_true (hAnswers e he)
  exact absurd hAll (by decide +kernel)

end Sessions

end FtpClient

end DataReel
