import DataReel.Net.EncryptedMail
import DataReel.Net.FtpReplies

/-! # What the FTP client sends in plain text

The data connection is used after `AttachClient` returned 0 alone, which only a
secure connection does.
-/

namespace DataReel

open Program

namespace FtpClient

variable {env : Environment NetAnswer} {L : Text → Prop} {g h : Prop}

/-- The line that the client sends before TLS. -/
def Opening (line : Text) : Prop := line = "AUTH TLS".toList

/-- The guards of the control connection and of the data connection. -/
def Held (L : Text → Prop) (g h : Prop) (D : Dialogue NetAnswer FtpClient) : Prop :=
  Guarded conn L g D ∧ Guarded data L h D

theorem Held.weaken {D : Dialogue NetAnswer FtpClient} {h' : Prop} (hD : Held L g h D)
    (hh : h' → h) : Held L g h' D := ⟨hD.1, TlsConnection.Guard.weaken hD.2 hh⟩

theorem keeps_onConn {α : Type} {x : NetM TlsConnection α} (hx : Program.Keeps (TlsConnection.Guard L g) x) :
    Program.Keeps (Held L g h) (onConn x) :=
  hx.zoom (fun _ hD => hD.1) fun _ _ hD ht => ⟨ht, ht.1, hD.2.2⟩

theorem keeps_onData {α : Type} {x : NetM TlsConnection α} (hx : Program.Keeps (TlsConnection.Guard L h) x) :
    Program.Keeps (Held L g h) (onData x) :=
  hx.zoom (fun _ hD => hD.2) fun _ _ hD ht => ⟨⟨ht.1, hD.1.2⟩, ht⟩

theorem keeps_ask {r : NetRequest} (hr : r.plain = none) :
    Program.Keeps (Held L g h) (ask env r : NetM FtpClient (NetAnswer r)) := fun _ hD =>
  ⟨⟨hD.1.1.cons hr, hD.1.2⟩, hD.2.1.cons hr, hD.2.2⟩

theorem keeps_update {f : FtpClient → FtpClient} (hConn : ∀ s, (f s).conn = s.conn)
    (hData : ∀ s, (f s).data = s.data) : Program.Keeps (Held L g h) (update f : NetM FtpClient Unit) := by
  intro D hD
  refine ⟨⟨hD.1.1, ?_⟩, hD.2.1, ?_⟩
  · simpa only [hConn] using hD.1.2
  · simpa only [hData] using hD.2.2

theorem held_idle : Idle (Held L g h) where
  message hD := ⟨⟨hD.1.1.cons rfl, hD.1.2⟩, hD.2.1.cons rfl, hD.2.2⟩
  fill hD := ⟨⟨hD.1.1.cons rfl, hD.1.2⟩, hD.2.1.cons rfl, hD.2.2⟩
  error hD := hD
  reply hD := hD
  connError hD := hD
  connRbuf hD := hD

theorem keeps_command {cmd : Text} (hLine : g ∨ L cmd) (expect : Text) :
    Program.Keeps (Held L g h) (command env cmd expect) := by
  unfold command
  split
  next => exact held_idle.keeps_fail _
  next hBreak =>
    refine .bind (fun _ hD => hD) fun _ =>
      .bind (keeps_onConn (TlsConnection.guard_sendLine (by simpa using hBreak) hLine)) fun _ =>
        .ite (.bind keeps_read fun _ => held_idle.keeps_fail _) (.bind held_idle.keeps_readReply fun _ => ?_)
    refine .ite (keeps_pure _) (.bind (keeps_update (fun _ => rfl) fun _ => rfl) fun _ => ?_)
    exact .bind keeps_read fun _ => .ite (keeps_pure _) (held_idle.keeps_fail _)

theorem keeps_connect (host : Text) (port : Int) (security : MailSecurity) :
    Program.Keeps (Held Opening False h) (connect env host port security) := by
  refine .bind (keeps_update (fun _ => rfl) fun _ => rfl) fun _ =>
    .bind (keeps_onConn (TlsConnection.guard_connect host port _)) fun _ =>
      .ite (.bind keeps_read fun _ => held_idle.keeps_fail _) (.bind held_idle.keeps_readReply fun _ => ?_)
  refine .bind keeps_read fun _ => .ite (keeps_pure _) (.ite (held_idle.keeps_fail _) (.ite ?_ (keeps_pure _)))
  have hUpgrade : Opening "AUTH TLS".toList := rfl
  refine .bind (keeps_command (.inr hUpgrade) _) fun _ => .ite ?_ ?_
  · exact .bind (keeps_onConn TlsConnection.guard_close) fun _ => held_idle.keeps_fail _
  · exact .bind (keeps_onConn TlsConnection.secures_startTls.keeps) fun _ =>
      .bind keeps_read fun _ => .ite (held_idle.keeps_fail _) (keeps_pure _)

theorem keeps_finishData : Program.Keeps (Held L g h) (finishData env) := by
  refine .bind (keeps_onData TlsConnection.guard_close) fun _ => .bind held_idle.keeps_readReply fun _ => ?_
  exact .bind keeps_read fun _ => .ite (keeps_pure _) (.ite (held_idle.keeps_fail _) (keeps_pure _))

theorem keeps_abortData (msg : Text) : Program.Keeps (Held L g h) (abortData env msg) :=
  .bind (keeps_onData TlsConnection.guard_close) fun _ => .bind held_idle.keeps_readReply fun _ => held_idle.keeps_fail _

section Secured

variable (hg : g)

include hg

theorem keeps_login (user passwd : Text) : Program.Keeps (Held L g h) (login env user passwd) := by
  have hProtect : Program.Keeps (Held L g h) (protect env) := by
    refine .bind (keeps_command (.inl hg) _) fun _ => .ite (keeps_pure _) ?_
    exact .bind (keeps_command (.inl hg) _) fun _ => .ite (keeps_pure _) (keeps_command (.inl hg) _)
  refine .bind (keeps_command (.inl hg) _) fun _ => .bind keeps_read fun _ => .ite (keeps_pure _) ?_
  refine .ite (.bind (keeps_command (.inl hg) _) fun _ => .ite (keeps_pure _) hProtect) ?_
  exact .ite (held_idle.keeps_fail _) hProtect

theorem keeps_dataPort : Program.Keeps (Held L g h) (dataPort env) := by
  refine .bind (keeps_command (.inl hg) _) fun _ => .bind keeps_read fun _ => .ite ?_ (keeps_pure _)
  refine .bind (keeps_command (.inl hg) _) fun _ => .bind keeps_read fun s => .ite (keeps_pure _) ?_
  cases passivePort s.lastReply with
  | none => exact .bind (held_idle.keeps_fail _) fun _ => keeps_pure _
  | some port => exact keeps_pure _

omit hg in
theorem keeps_openSocket (port : Int) : Program.Keeps (Held L g h) (openSocket env port) := by
  refine .bind (keeps_ask rfl) fun _ => .bind (keeps_ask rfl) fun _ => .ite (keeps_pure _) ?_
  exact .bind (keeps_ask rfl) fun _ => held_idle.keeps_fail _

omit hg in
/-- A call that does not return 0 may leave the data connection open and not secure. -/
theorem Held.failed {D : Dialogue NetAnswer FtpClient} (hD : Held L g False D) :
    Held L g ((-1 : Int) = 0) D := hD.weaken fun h => absurd h (by decide)

omit hg in
theorem attachData_ends {D : Dialogue NetAnswer FtpClient} (hD : Held L g False D) :
    Ends (attachData env) D (fun r t => Held L g (r = 0) t) (Held L g False) := by
  unfold attachData onData
  rw [ends_bind, ends_read, ends_bind, ends_zoom]
  refine (TlsConnection.secures_attachClient true _ _ { state := D.state.data, trace := D.trace }
    hD.2.1).mono (fun r t ht => ?_) fun t ht => ⟨⟨ht.1, hD.1.2⟩, ht⟩
  refine ends_ite.mpr ⟨fun _ => ?_, fun hr => ?_⟩
  · exact ⟨⟨ht.1, hD.1.2⟩, ht.1, fun h => absurd h (by decide)⟩
  · exact ⟨⟨ht.1, hD.1.2⟩, ht.weaken fun _ => not_not.mp hr⟩

/-- A transfer goes on with a secure data connection alone. -/
theorem openData_ends {D : Dialogue NetAnswer FtpClient} (cmd : Text) (hD : Held L g False D) :
    Ends (openData env cmd) D (fun r t => Held L g (r = 0) t) (Held L g False) := by
  have hStart : Held L g False { D with state := { D.state with data := {} } } :=
    ⟨hD.1, hD.2.1, fun h => h.elim⟩
  unfold openData
  rw [ends_bind, ends_update]
  refine (keeps_dataPort hg).ends_bind hStart fun port t ht => ?_
  cases port with
  | none => exact ht.failed
  | some port =>
    refine ends_ite.mpr ⟨fun _ => ht.failed, fun _ => ?_⟩
    refine (keeps_openSocket port).ends_bind ht fun r u hu => ?_
    refine ends_ite.mpr ⟨fun _ => hu.failed, fun _ => ?_⟩
    refine (keeps_command (.inl hg) _).ends_bind hu fun r v hv => ?_
    exact ends_ite.mpr ⟨fun _ => hv.failed, fun _ => attachData_ends hv⟩

theorem keeps_transfer {α : Type} {cmd : Text} {r : α} {x : NetM FtpClient α}
    (hx : Program.Keeps (Held L g True) x) :
    Program.Keeps (Held L g False) (openData env cmd >>= fun rv => if rv ≠ 0 then pure r else x) := by
  intro D hD
  rw [ends_bind]
  refine (openData_ends hg cmd hD).mono (fun rv t ht => ?_) fun _ => id
  refine ends_ite.mpr ⟨fun _ => ht.weaken False.elim, fun hr => ?_⟩
  have hOpen : Held L g True t := ht.weaken fun _ => not_not.mp hr
  exact (hx t hOpen).mono (fun _ _ hu => hu.weaken False.elim) fun _ hu => hu.weaken False.elim

omit hg in
theorem keeps_getLoop (localFname : Text) (bytes : Int) (n : Nat) :
    Program.Keeps (Held L g h) (getLoop env localFname bytes n) := by
  induction n generalizing bytes with
  | zero => exact keeps_throw _
  | succ n ih =>
    refine .bind (keeps_onData ((TlsConnection.guard_passive 1).keeps_readSome _)) fun _ => .ite ?_ ?_
    · exact .bind keeps_finishData fun _ => keeps_pure _
    · refine .ite (.bind keeps_read fun _ => .bind (keeps_abortData _) fun _ => keeps_pure _) ?_
      refine .bind (keeps_ask rfl) fun _ => .ite (ih _) ?_
      exact .bind (keeps_abortData _) fun _ => keeps_pure _

omit hg in
theorem keeps_putLoop (localFname : Text) (bytes : Int) (n : Nat) :
    Program.Keeps (Held L g True) (putLoop env localFname bytes n) := by
  induction n generalizing bytes with
  | zero => exact keeps_throw _
  | succ n ih =>
    refine .bind (keeps_ask rfl) fun part => ?_
    cases part with
    | closed => exact .bind keeps_finishData fun _ => keeps_pure _
    | failed => exact .bind (keeps_abortData _) fun _ => keeps_pure _
    | data c s =>
      refine .bind (keeps_onData (TlsConnection.guard_send trivial _)) fun _ => .ite ?_ (ih _)
      exact .bind keeps_read fun _ => .bind (keeps_abortData _) fun _ => keeps_pure _

theorem keeps_download (n : Nat) (cmd msg : Text) :
    Program.Keeps (Held L g False) (download env n cmd msg) := by
  refine keeps_transfer hg ?_
  refine .bind (keeps_onData ((TlsConnection.guard_passive 1).keeps_readAll _ _)) fun out => ?_
  cases out with
  | none => exact .bind keeps_read fun _ => .bind (keeps_abortData _) fun _ => keeps_pure _
  | some out => exact .bind keeps_finishData fun _ => keeps_pure _

theorem keeps_get (n : Nat) (remote localFname : Text) :
    Program.Keeps (Held L g False) (get env n remote localFname) := by
  refine .bind (keeps_ask rfl) fun _ => .ite ?_ (.bind (held_idle.keeps_fail _) fun _ => keeps_pure _)
  exact keeps_transfer hg (keeps_getLoop _ _ _)

theorem keeps_putString (bytes remote : Text) :
    Program.Keeps (Held L g False) (putString env bytes remote) := by
  refine keeps_transfer hg (.bind (keeps_onData (TlsConnection.guard_send trivial _)) fun _ => ?_)
  exact .bind keeps_read fun _ => .ite (keeps_abortData _) keeps_finishData

theorem keeps_put (n : Nat) (localFname remote : Text) :
    Program.Keeps (Held L g False) (put env n localFname remote) := by
  refine .bind (keeps_ask rfl) fun _ => .ite ?_ (.bind (held_idle.keeps_fail _) fun _ => keeps_pure _)
  exact keeps_transfer hg (keeps_putLoop _ _ _)

theorem keeps_pwd : Program.Keeps (Held L g h) (pwd env) := by
  refine .bind (keeps_command (.inl hg) _) fun _ => .bind keeps_read fun s => .ite (keeps_pure _) ?_
  cases following "\"".toList s.lastReply <;> exact keeps_pure _

end Secured

/-- The calls that ask for TLS, close the connection or send nothing. -/
def Call.opens : Call → Bool
  | .setVerifyPeer _ | .connect .. | .close => true
  | _ => false

theorem keeps_exec (a : Call) : Program.Keeps (Held Opening (a.opens = false) False) (exec env a) := by
  cases a with
  | setVerifyPeer on => exact keeps_onConn fun _ h => h
  | connect host port security =>
    have hConnect : Program.Keeps (Held Opening False False) (exec env (.connect host port security)) :=
      .bind (keeps_connect host port security) fun _ => keeps_pure _
    simpa only [Call.opens, Bool.true_eq_false] using hConnect
  | login user passwd => exact .bind (keeps_login rfl user passwd) fun _ => keeps_pure _
  | type c => exact .bind (keeps_command (.inl rfl) _) fun _ => keeps_pure _
  | list n path full => exact .bind (keeps_download rfl n _ _) fun _ => keeps_pure _
  | chDir dir => exact .bind (keeps_command (.inl rfl) _) fun _ => keeps_pure _
  | mkDir dir => exact .bind (keeps_command (.inl rfl) _) fun _ => keeps_pure _
  | rmDir dir => exact .bind (keeps_command (.inl rfl) _) fun _ => keeps_pure _
  | pwd => exact .bind (keeps_pwd rfl) fun _ => keeps_pure _
  | size path =>
    refine .bind (.bind (keeps_command (.inl rfl) _) fun _ => ?_) fun _ => keeps_pure _
    exact .bind keeps_read fun _ => .ite (keeps_pure _) (keeps_pure _)
  | delete path => exact .bind (keeps_command (.inl rfl) _) fun _ => keeps_pure _
  | rename path newPath =>
    refine .bind (.bind (keeps_command (.inl rfl) _) fun _ => ?_) fun _ => keeps_pure _
    exact .ite (keeps_pure _) (keeps_command (.inl rfl) _)
  | get n remote localFname => exact .bind (keeps_get rfl n remote localFname) fun _ => keeps_pure _
  | put n localFname remote => exact .bind (keeps_put rfl n localFname remote) fun _ => keeps_pure _
  | getString n remote => exact .bind (keeps_download rfl n _ _) fun _ => keeps_pure _
  | putString bytes remote => exact .bind (keeps_putString rfl bytes remote) fun _ => keeps_pure _
  | quit =>
    refine .bind (.bind (keeps_command (.inl rfl) _) fun _ => ?_) fun _ => keeps_pure _
    exact .bind (keeps_onConn TlsConnection.guard_close) fun _ => keeps_pure _
  | close => exact keeps_onConn TlsConnection.guard_close
  | command cmd expect => exact .bind (keeps_command (.inl rfl) _) fun _ => keeps_pure _

theorem run_clean {calls : List Call}
    (h : (machine env).Along (fun a => Ready conn a.opens) calls start) :
    Clean Opening ((machine env).run calls start).2.trace := by
  refine Machine.run_invariant (I := fun D : Dialogue NetAnswer FtpClient => Clean Opening D.trace)
    (fun a D hD hReady => ?_) nofun h
  have hHeld : Held Opening (a.opens = false) False D :=
    ⟨⟨hD, fun hOpens => hReady.resolve_left (by simp [hOpens])⟩, hD, False.elim⟩
  exact (keeps_exec a D hHeld).last.1.1

end FtpClient

section Clients

/-- Peers with these answers to a check of a certificate, that close the connection where they
are to send. -/
def silent (valid : Bool) : Environment NetAnswer := fun _ r =>
  match r with
  | .verifyCert .. => valid
  | .connect .. | .initCtx _ | .openSsl _ | .send .. => true
  | .createLocal _ | .openLocal _ | .writeLocal _ => true
  | .exceptionMessage _ | .peerAddress _ | .hostName | .smtpTime | .messageNumber => []
  | .handshake .. => .full
  | .fill .. | .readLocal => .closed

end Clients

end DataReel
