import DataReel.Net.Encrypted
import DataReel.Net.Pop3

/-! # What the mail clients send in plain text

A call of a client whose connection is closed or secure sends nothing in plain
text, and `Connect` sends no more than its request for TLS. A `Connect` that
fails can leave the connection open and not secure.
-/

namespace DataReel

open Program

section Client

variable {σ : Type} {get : σ → TlsConnection} {set : TlsConnection → σ → σ}
  {L : Text → Prop} {g : Prop}

/-- `TlsConnection.Guard` of the connection of a client. -/
def Guarded (get : σ → TlsConnection) (L : Text → Prop) (g : Prop) (D : Dialogue NetAnswer σ) :
    Prop := TlsConnection.Guard L g { state := get D.state, trace := D.trace }

theorem keeps_guarded {α : Type} {x : NetM TlsConnection α} (hget : ∀ t s, get (set t s) = t)
    (hx : Program.Keeps (TlsConnection.Guard L g) x) : Program.Keeps (Guarded get L g) (zoom get set x) :=
  hx.zoom (fun _ h => h) fun D t _ ht => by
    unfold Guarded
    rwa [hget]

theorem keeps_ask_guarded {env : Environment NetAnswer} {r : NetRequest} (hr : r.plain = none) :
    Program.Keeps (Guarded get L g) (ask env r : NetM σ (NetAnswer r)) := fun _ h => ⟨h.1.cons hr, h.2⟩

theorem keeps_update_guarded {f : σ → σ} (hf : ∀ s, get (f s) = get s) :
    Program.Keeps (Guarded get L g) (update f : NetM σ Unit) := fun D h => by
  unfold Guarded at h
  rw [← hf] at h
  exact h

/-- A call starts from a connection that is closed or secure, or it is one that asks for TLS or
closes the connection. -/
def Ready (get : σ → TlsConnection) (opens : Bool) (D : Dialogue NetAnswer σ) : Prop :=
  opens = true ∨ ((get D.state).isOpen = true → (get D.state).secure = true)

instance (opens : Bool) (D : Dialogue NetAnswer σ) : Decidable (Ready get opens D) :=
  inferInstanceAs (Decidable (_ ∨ _))

theorem Ready.clean {x : NetM σ Unit} {D : Dialogue NetAnswer σ} {opens : Bool}
    (h : Ready get opens D) (hx : Program.Keeps (Guarded get L (opens = false)) x) (hD : Clean L D.trace) :
    Clean L (last (x D)).trace :=
  (hx D ⟨hD, fun hOpens => h.resolve_left (by simp [hOpens])⟩).last.1

end Client

namespace SmtpClient

variable {env : Environment NetAnswer} {L : Text → Prop} {g : Prop}

/-- The lines that the client sends before TLS. -/
def Opening (line : Text) : Prop := line = "STARTTLS".toList ∨ ∃ name, line = "EHLO ".toList ++ name

theorem keeps_onConn {α : Type} {x : NetM TlsConnection α} (hx : Program.Keeps (TlsConnection.Guard L g) x) :
    Program.Keeps (Guarded conn L g) (onConn x) := keeps_guarded (fun _ _ => rfl) hx

theorem keeps_fail (msg : Text) : Program.Keeps (Guarded conn L g) (fail msg) :=
  .bind (keeps_update_guarded fun _ => rfl) fun _ => keeps_pure _

theorem keeps_readLine (maxLen : Nat) :
    Program.Keeps (Guarded conn L g) (onConn (TlsConnection.readLine env 0 maxLen)) :=
  keeps_onConn ((TlsConnection.guard_passive 0).keeps_readLine maxLen)

theorem keeps_replyLines (n : Nat) : Program.Keeps (Guarded conn L g) (replyLines env n) := by
  induction n with
  | zero => exact keeps_fail _
  | succ n ih =>
    refine .bind (keeps_readLine _) fun line => ?_
    cases line with
    | none => exact .bind keeps_read fun _ => keeps_fail _
    | some line =>
      refine .ite (keeps_fail _) (.bind (keeps_update_guarded fun _ => rfl) fun _ => .ite ih ?_)
      exact .bind (keeps_update_guarded fun _ => rfl) fun _ => keeps_pure _

theorem keeps_readReply : Program.Keeps (Guarded conn L g) (readReply env) :=
  .bind (keeps_update_guarded fun _ => rfl) fun _ => keeps_replyLines _

theorem keeps_command {cmd : Text} (hLine : g ∨ L cmd) (expect : Text) :
    Program.Keeps (Guarded conn L g) (command env cmd expect) := by
  unfold command
  split
  next => exact keeps_fail _
  next hBreak =>
    refine .bind (keeps_onConn (TlsConnection.guard_sendLine (by simpa using hBreak) hLine)) fun _ =>
      .ite (.bind keeps_read fun _ => keeps_fail _) (.bind keeps_readReply fun _ => ?_)
    exact .ite (keeps_pure _) (.bind keeps_read fun _ => .ite (keeps_pure _) (keeps_fail _))

theorem keeps_ehlo (hLine : g ∨ ∀ name, L ("EHLO ".toList ++ name)) :
    Program.Keeps (Guarded conn L g) (ehlo env) := by
  have hName : Program.Keeps (Guarded conn L g) (greetingName env) := by
    refine .bind keeps_read fun _ => .ite (.bind (keeps_ask_guarded rfl) fun _ => ?_) (keeps_pure _)
    exact keeps_pure _
  refine .bind hName fun name => .bind (keeps_command (hLine.imp_right (· name)) _) fun _ => ?_
  exact .ite (keeps_pure _) (.bind (keeps_update_guarded fun _ => rfl) fun _ => keeps_pure _)

theorem keeps_connect (host : Text) (port : Int) (security : MailSecurity) :
    Program.Keeps (Guarded conn Opening False) (connect env host port security) := by
  have hEhlo : Program.Keeps (Guarded conn Opening False) (ehlo env) :=
    keeps_ehlo (.inr fun name => .inr ⟨name, rfl⟩)
  have hUpgrade : Program.Keeps (Guarded conn Opening False) (upgrade env) := by
    refine .bind (keeps_command (.inr (.inl rfl)) _) fun _ => .ite (keeps_pure _) ?_
    refine .bind (keeps_onConn TlsConnection.secures_startTls.keeps) fun _ => ?_
    exact .ite (.bind keeps_read fun _ => keeps_fail _) (.bind hEhlo fun _ => keeps_pure _)
  refine .bind (keeps_update_guarded fun _ => rfl) fun _ =>
    .bind (keeps_onConn (TlsConnection.guard_connect host port _)) fun _ =>
      .ite (.bind keeps_read fun _ => keeps_fail _) ?_
  refine .bind keeps_readReply fun _ => .bind keeps_read fun _ =>
    .ite (keeps_pure _) (.ite (keeps_fail _) ?_)
  refine .bind hEhlo fun _ => .bind keeps_read fun _ => .ite (keeps_pure _) (.ite ?_ (keeps_pure _))
  exact .ite (.bind (keeps_onConn TlsConnection.guard_close) fun _ => keeps_fail _) hUpgrade

section Secured

variable (hg : g)

include hg

theorem keeps_login (user passwd : Text) : Program.Keeps (Guarded conn L g) (login env user passwd) := by
  refine .bind keeps_read fun _ => .ite (keeps_command (.inl hg) _) ?_
  refine .bind (keeps_command (.inl hg) _) fun _ => .ite (keeps_pure _) ?_
  exact .bind (keeps_command (.inl hg) _) fun _ => .ite (keeps_pure _) (keeps_command (.inl hg) _)

theorem keeps_data (message : Text) : Program.Keeps (Guarded conn L g) (data env message) := by
  refine .bind (keeps_command (.inl hg) _) fun _ => .ite (keeps_pure _) ?_
  refine .bind (keeps_onConn (TlsConnection.guard_send hg _)) fun _ =>
    .ite (.bind keeps_read fun _ => keeps_fail _) (.bind keeps_readReply fun _ => ?_)
  exact .bind keeps_read fun _ => .ite (keeps_pure _) (.ite (keeps_fail _) (keeps_pure _))

theorem keeps_recipients (addressees : List Text) (header : Text) :
    Program.Keeps (Guarded conn L g) (recipients env addressees header) := by
  induction addressees generalizing header with
  | nil => exact keeps_pure _
  | cons t ts ih =>
    refine .ite (.bind (keeps_fail _) fun _ => keeps_pure _) ?_
    exact .bind (keeps_command (.inl hg) _) fun _ => .ite (keeps_pure _) (ih _)

theorem keeps_sendMessage (sender : Text) (addressees : List Text) (subject body : Text) :
    Program.Keeps (Guarded conn L g) (sendMessage env sender addressees subject body) := by
  refine .ite (keeps_fail _) (.ite (keeps_fail _) ?_)
  refine .bind (keeps_command (.inl hg) _) fun _ => .ite (keeps_pure _) ?_
  refine .bind (keeps_recipients hg _ _) fun header => ?_
  cases header with
  | none => exact keeps_pure _
  | some header =>
    exact .bind (keeps_ask_guarded rfl) fun _ => .bind (keeps_ask_guarded rfl) fun _ =>
      keeps_data hg _

end Secured

/-- The calls that ask for TLS, close the connection or send nothing. -/
def Call.opens : Call → Bool
  | .setVerifyPeer _ | .setClientName _ | .connect .. | .close => true
  | _ => false

theorem keeps_exec (a : Call) : Program.Keeps (Guarded conn Opening (a.opens = false)) (exec env a) := by
  cases a with
  | setVerifyPeer on => exact keeps_onConn fun _ h => h
  | setClientName name => exact keeps_update_guarded fun _ => rfl
  | connect host port security =>
    have hConnect : Program.Keeps (Guarded conn Opening False) (exec env (.connect host port security)) :=
      .bind (keeps_connect host port security) fun _ => keeps_pure _
    simpa only [Call.opens, Bool.true_eq_false] using hConnect
  | login user passwd => exact .bind (keeps_login rfl user passwd) fun _ => keeps_pure _
  | mailFrom address => exact .bind (keeps_command (.inl rfl) _) fun _ => keeps_pure _
  | rcptTo address => exact .bind (keeps_command (.inl rfl) _) fun _ => keeps_pure _
  | data message => exact .bind (keeps_data rfl message) fun _ => keeps_pure _
  | reset => exact .bind (keeps_command (.inl rfl) _) fun _ => keeps_pure _
  | quit =>
    refine .bind (.bind (keeps_command (.inl rfl) _) fun _ => ?_) fun _ => keeps_pure _
    exact .bind (keeps_onConn TlsConnection.guard_close) fun _ => keeps_pure _
  | close => exact keeps_onConn TlsConnection.guard_close
  | sendMessage sender addressees subject body =>
    exact .bind (keeps_sendMessage rfl sender addressees subject body) fun _ => keeps_pure _
  | command cmd expect => exact .bind (keeps_command (.inl rfl) _) fun _ => keeps_pure _

theorem run_clean {calls : List Call}
    (h : (machine env).Along (fun a => Ready conn a.opens) calls start) :
    Clean Opening ((machine env).run calls start).2.trace :=
  Machine.run_invariant (I := fun D : Dialogue NetAnswer SmtpClient => Clean Opening D.trace)
    (fun a _ hD hReady => hReady.clean (keeps_exec a) hD) nofun h

end SmtpClient

namespace Pop3Client

variable {env : Environment NetAnswer} {L : Text → Prop} {g : Prop}

/-- The line that the client sends before TLS. -/
def Opening (line : Text) : Prop := line = "STLS".toList

theorem keeps_onConn {α : Type} {x : NetM TlsConnection α} (hx : Program.Keeps (TlsConnection.Guard L g) x) :
    Program.Keeps (Guarded conn L g) (onConn x) := keeps_guarded (fun _ _ => rfl) hx

theorem keeps_fail (msg : Text) : Program.Keeps (Guarded conn L g) (fail msg) :=
  .bind (keeps_update_guarded fun _ => rfl) fun _ => keeps_pure _

theorem keeps_readLine (maxLen : Nat) :
    Program.Keeps (Guarded conn L g) (onConn (TlsConnection.readLine env 0 maxLen)) :=
  keeps_onConn ((TlsConnection.guard_passive 0).keeps_readLine maxLen)

theorem keeps_readStatus : Program.Keeps (Guarded conn L g) (readStatus env) := by
  refine .bind (keeps_readLine _) fun line => .bind (keeps_update_guarded fun _ => rfl) fun _ => ?_
  cases line with
  | none => exact .bind keeps_read fun _ => keeps_fail _
  | some line => exact .ite (keeps_pure _) (keeps_fail _)

theorem keeps_readMultiline (text : Text) (n : Nat) :
    Program.Keeps (Guarded conn L g) (readMultiline env text n) := by
  induction n generalizing text with
  | zero => exact keeps_throw _
  | succ n ih =>
    refine .bind (keeps_readLine _) fun line => ?_
    cases line with
    | none => exact .bind keeps_read fun _ => .bind (keeps_fail _) fun _ => keeps_pure _
    | some line => exact .ite (keeps_pure _) (ih _)

theorem keeps_command {cmd : Text} (hLine : g ∨ L cmd) :
    Program.Keeps (Guarded conn L g) (command env cmd) := by
  unfold command
  split
  next => exact keeps_fail _
  next hBreak =>
    refine .bind (keeps_onConn (TlsConnection.guard_sendLine (by simpa using hBreak) hLine)) fun _ =>
      .ite (.bind keeps_read fun _ => keeps_fail _) keeps_readStatus

theorem keeps_connect (host : Text) (port : Int) (security : MailSecurity) :
    Program.Keeps (Guarded conn Opening False) (connect env host port security) := by
  refine .bind (keeps_update_guarded fun _ => rfl) fun _ =>
    .bind (keeps_onConn (TlsConnection.guard_connect host port _)) fun _ =>
      .ite (.bind keeps_read fun _ => keeps_fail _) ?_
  refine .bind keeps_readStatus fun _ => .ite (keeps_pure _) (.ite ?_ (keeps_pure _))
  refine .bind (keeps_command (.inr rfl)) fun _ => .ite ?_ ?_
  · exact .bind (keeps_onConn TlsConnection.guard_close) fun _ => keeps_fail _
  · exact .bind (keeps_onConn TlsConnection.secures_startTls.keeps) fun _ =>
      .bind keeps_read fun _ => .ite (keeps_fail _) (keeps_pure _)

theorem keeps_stat (hg : g) : Program.Keeps (Guarded conn L g) (stat env) := by
  refine .bind (keeps_command (.inl hg)) fun _ => .ite (keeps_pure _) (.bind keeps_read fun s => ?_)
  split
  · exact keeps_pure _
  · exact .bind (keeps_fail _) fun _ => keeps_pure _

theorem keeps_multiline (hg : g) (n : Nat) (cmd text : Text) :
    Program.Keeps (Guarded conn L g) (multiline env n cmd text) :=
  .bind (keeps_command (.inl hg)) fun _ => .ite (keeps_pure _) (keeps_readMultiline _ n)

/-- The calls that ask for TLS, close the connection or send nothing. -/
def Call.opens : Call → Bool
  | .setVerifyPeer _ | .connect .. | .close => true
  | _ => false

theorem keeps_exec (a : Call) : Program.Keeps (Guarded conn Opening (a.opens = false)) (exec env a) := by
  cases a with
  | setVerifyPeer on => exact keeps_onConn fun _ h => h
  | connect host port security =>
    have hConnect : Program.Keeps (Guarded conn Opening False) (exec env (.connect host port security)) :=
      .bind (keeps_connect host port security) fun _ => keeps_pure _
    simpa only [Call.opens, Bool.true_eq_false] using hConnect
  | login user passwd =>
    refine .bind (.bind (keeps_command (.inl rfl)) fun _ => ?_) fun _ => keeps_pure _
    exact .ite (keeps_pure _) (keeps_command (.inl rfl))
  | stat => exact .bind (keeps_stat rfl) fun _ => keeps_pure _
  | list n listing => exact .bind (keeps_multiline rfl n _ _) fun _ => keeps_pure _
  | retr n messageNumber message => exact .bind (keeps_multiline rfl n _ _) fun _ => keeps_pure _
  | top n messageNumber lines message => exact .bind (keeps_multiline rfl n _ _) fun _ => keeps_pure _
  | delete messageNumber => exact .bind (keeps_command (.inl rfl)) fun _ => keeps_pure _
  | reset => exact .bind (keeps_command (.inl rfl)) fun _ => keeps_pure _
  | quit =>
    refine .bind (.bind (keeps_command (.inl rfl)) fun _ => ?_) fun _ => keeps_pure _
    exact .bind (keeps_onConn TlsConnection.guard_close) fun _ => keeps_pure _
  | close => exact keeps_onConn TlsConnection.guard_close
  | command cmd => exact .bind (keeps_command (.inl rfl)) fun _ => keeps_pure _

theorem run_clean {calls : List Call}
    (h : (machine env).Along (fun a => Ready conn a.opens) calls start) :
    Clean Opening ((machine env).run calls start).2.trace :=
  Machine.run_invariant (I := fun D : Dialogue NetAnswer Pop3Client => Clean Opening D.trace)
    (fun a _ hD hReady => hReady.clean (keeps_exec a) hD) nofun h

end Pop3Client

end DataReel
