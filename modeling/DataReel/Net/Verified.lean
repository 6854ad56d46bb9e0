import DataReel.Library.Machine
import DataReel.Net.Reading

/-! # Which peers a secure connection was checked against

Client connections with `verify_peer` on, under calls in any order. A TLS
session counts as checked when `VerifyCert` accepted the certificate of the
handshake that made it. `AttachClient` relies on the check of another
connection, so the invariant needs that a peer to which a session is offered
resumes it.
-/

namespace DataReel

open Program

namespace TlsConnection

/-- The public calls on a client connection. A socket passed to `AttachClient` may be open or
not, and the session may come from any of the connections. -/
inductive Call where
  | connect (host : Text) (port : Int) (implicitTls : Bool)
  | startTls
  | attachClient (sockOpen : Bool) (host : Text) (sessionFrom : Option Nat)
  | send (bytes : Text)
  | sendLine (s : Text)
  | readSome (bytes : Nat)
  | readBytes (bytes : Nat)
  | readLine (maxLen : Nat)
  | readAll (maxLen : Option Nat) (turns : Nat)
  | close
  deriving DecidableEq, Repr

section Connections

variable (env : Environment NetAnswer)

/-- A call on one connection, where `conns` are all of them before the call. -/
def call (conns : Nat → TlsConnection) (c : Nat) : Call → NetM TlsConnection Unit
  | .connect host port implicitTls => do let _ ← connect env c host port implicitTls
  | .startTls => do let _ ← startTls env c
  | .attachClient sockOpen host sessionFrom => do
    let _ ← attachClient env c sockOpen host fun own =>
      sessionFrom.map fun i => if i = c then own else conns i
  | .send bytes => do let _ ← send env c bytes
  | .sendLine s => do let _ ← sendLine env c s
  | .readSome bytes => do let _ ← readSome env c bytes
  | .readBytes bytes => do let _ ← readBytes env c bytes
  | .readLine maxLen => do let _ ← readLine env c maxLen
  | .readAll maxLen turns => do let _ ← readAll env c maxLen turns
  | .close => close

/-- A call on connection `c` of the program. -/
def onConnection (c : Nat) (a : Call) : NetM (Nat → TlsConnection) Unit := do
  let conns ← read
  zoom (fun conns => conns c) (fun t conns => Function.update conns c t) (call env conns c a)

def connections : Machine (Nat × Call) Unit (Dialogue NetAnswer (Nat → TlsConnection)) where
  step a s := ((), last (onConnection env a.1 a.2 s))

/-- The connections of a program that has made no call. -/
def fresh : Dialogue NetAnswer (Nat → TlsConnection) where
  state _ := {}
  trace := []

end Connections

/-- The session was made by a handshake after which the certificate was accepted for the host
name, or was resumed from such a session. -/
def Checked (t : TlsConnection) : Prop :=
  ∃ s h, t.ssl = some s ∧ s.accepted = some h ∧ (s.resumed ∨ h = t.hostName)

/-- The peer was offered a session and made a full handshake. -/
def declined : Sigma NetAnswer → Bool
  | ⟨.handshake _ _ true, outcome⟩ => decide (outcome = .full)
  | _ => false

/-- Every session that was offered to a peer was resumed, if the handshake succeeded. -/
def Resumes (trace : List (Sigma NetAnswer)) : Prop := ∀ e ∈ trace, ¬ declined e

theorem Resumes.tail {e : Sigma NetAnswer} {trace : List (Sigma NetAnswer)}
    (h : Resumes (e :: trace)) : Resumes trace := fun f hf => h f (List.mem_cons_of_mem e hf)

/-- A client connection that verifies and is secure with a checked session alone. -/
structure Verified (t : TlsConnection) : Prop where
  verifies : t.verifyPeer = true
  checked : t.secure = true → t.Checked

theorem Verified.of_plain {t : TlsConnection} (h : t.verifyPeer = true) (hPlain : t.secure = false) :
    t.Verified := ⟨h, by simp [hPlain]⟩

theorem Verified.congr {t u : TlsConnection} (h : t.Verified) (hVerify : u.verifyPeer = t.verifyPeer)
    (hSecure : u.secure = t.secure) (hSsl : u.ssl = t.ssl) (hHost : u.hostName = t.hostName) :
    u.Verified := by
  constructor
  · rw [hVerify]
    exact h.verifies
  · intro hu
    obtain ⟨s, host, hs, hAccepted, hOr⟩ := h.checked (hSecure ▸ hu)
    exact ⟨s, host, hSsl.trans hs, hAccepted, hOr.imp_right (·.trans hHost.symm)⟩

section OneConnection

variable {env : Environment NetAnswer} {c : Nat} {P : Prop}

/-- The invariant of one connection, where `P` is known of the others. -/
def Held (P : Prop) (D : Dialogue NetAnswer TlsConnection) : Prop :=
  Resumes D.trace → P ∧ D.state.Verified

/-- The invariant before a handshake. -/
def HeldPlain (P : Prop) (D : Dialogue NetAnswer TlsConnection) : Prop :=
  Resumes D.trace → P ∧ D.state.verifyPeer = true ∧ D.state.secure = false

theorem HeldPlain.held {D : Dialogue NetAnswer TlsConnection} (h : HeldPlain P D) : Held P D :=
  fun hr => ⟨(h hr).1, .of_plain (h hr).2.1 (h hr).2.2⟩

theorem held_passive (c : Nat) : Passive c (Held P) where
  message h hr := h hr.tail
  fill h hr := h hr.tail
  error h hr := ⟨(h hr).1, (h hr).2.congr rfl rfl rfl rfl⟩
  rbuf h hr := ⟨(h hr).1, (h hr).2.congr rfl rfl rfl rfl⟩

theorem keeps_close : Program.Keeps (Held P) close := fun _ h hr =>
  ⟨(h hr).1, .of_plain (h hr).2.verifies rfl⟩

theorem tlsHandshake_held {D : Dialogue NetAnswer TlsConnection} (h : HeldPlain P D) :
    Ends (tlsHandshake env c) D (fun _ => Held P) (Held P) := by
  unfold tlsHandshake
  simp only [ends_bind, ends_ask, ends_read, ends_ite, ends_update, ends_pure]
  refine ⟨fun _ => ⟨fun _ => ?_, fun _ => ⟨fun _ => ⟨fun _ => ?_, fun _ => ?_⟩, fun hOff => ?_⟩⟩,
    fun _ => ?_⟩
  · exact (held_passive c).keeps_failMessage _ fun hr => ⟨(h hr.tail.tail).1,
      .of_plain (h hr.tail.tail).2.1 (h hr.tail.tail).2.2⟩
  · exact fun hr => ⟨(h hr.tail.tail.tail).1, (h hr.tail.tail.tail).2.1,
      fun _ => ⟨_, _, rfl, rfl, .inr rfl⟩⟩
  · exact (held_passive c).keeps_failMessage _ fun hr => ⟨(h hr.tail.tail.tail).1,
      .of_plain (h hr.tail.tail.tail).2.1 (h hr.tail.tail.tail).2.2⟩
  · exact fun hr => absurd (h hr.tail.tail).2.1 hOff
  · exact (held_passive c).keeps_failMessage _ fun hr => h.held hr.tail

theorem keeps_startTls : Program.Keeps (Held P) (startTls env c) := by
  intro D h
  unfold startTls
  simp only [ends_bind, ends_read, ends_ite, ends_update, ends_ask, ends_pure]
  refine ⟨fun _ => (held_passive c).keeps_fail _ D h, fun _ => ⟨fun _ => h, fun hPlain => ⟨fun _ => ?_, fun _ => ?_⟩⟩⟩
  · exact tlsHandshake_held fun hr => ⟨(h hr.tail).1, (h hr.tail).2.verifies, by simpa using hPlain⟩
  · exact (held_passive c).keeps_failMessage _ fun hr =>
      ⟨(h hr.tail).1, .of_plain (h hr.tail).2.verifies (by simpa using hPlain)⟩

theorem keeps_connect (host : Text) (port : Int) (implicitTls : Bool) :
    Program.Keeps (Held P) (connect env c host port implicitTls) := by
  intro D h
  unfold connect
  simp only [close, ends_bind, ends_update, ends_ite, ends_ask, ends_pure]
  have hPlain (hr : Resumes D.trace) (u : TlsConnection) (hVerify : u.verifyPeer = D.state.verifyPeer)
      (hSecure : u.secure = false) : P ∧ u.Verified :=
    ⟨(h hr).1, .of_plain (hVerify.trans (h hr).2.verifies) hSecure⟩
  refine ⟨fun _ => ⟨fun _ => ?_, fun _ => ?_⟩, fun _ => ?_⟩
  · exact keeps_startTls _ fun hr => hPlain hr.tail _ rfl rfl
  · exact fun hr => hPlain hr.tail _ rfl rfl
  · exact (held_passive c).keeps_fail _ _ fun hr => hPlain hr.tail.tail _ rfl rfl

/-- A session is taken from a checked connection, and the peer resumes it. -/
theorem keeps_attachClient (sockOpen : Bool) (host : Text)
    {sessionFrom : TlsConnection → Option TlsConnection}
    (hFrom : P → ∀ t, t.secure = false → ∀ other ∈ sessionFrom t, other.secure = true → other.Checked) :
    Program.Keeps (Held P) (attachClient env c sockOpen host sessionFrom) := by
  intro D h
  unfold attachClient
  simp only [close, ends_bind, ends_update, ends_read]
  have hPlain (hr : Resumes D.trace) (u : TlsConnection) (hVerify : u.verifyPeer = D.state.verifyPeer)
      (hSecure : u.secure = false) : P ∧ u.Verified :=
    ⟨(h hr).1, .of_plain (hVerify.trans (h hr).2.verifies) hSecure⟩
  split
  next => exact keeps_startTls _ fun hr => hPlain hr _ rfl rfl
  next other hOther =>
    obtain ⟨hMem, hSecure⟩ := Option.filter_eq_some_iff.mp hOther
    simp only [ends_bind, ends_ask, ends_ite]
    refine ⟨fun _ => ?_, fun _ => (held_passive c).keeps_failMessage _ fun hr => hPlain hr.tail _ rfl rfl⟩
    split
    next => exact (held_passive c).keeps_failMessage _ fun hr => hPlain hr.tail.tail _ rfl rfl
    next hFull => exact fun hr => absurd (decide_eq_true hFull) (hr _ List.mem_cons_self)
    next =>
      intro hr
      obtain ⟨hP, hVerified⟩ := h hr.tail.tail
      obtain ⟨s, accepted, hs, hAccepted, -⟩ := hFrom hP _ rfl other hMem hSecure
      refine ⟨hP, hVerified.verifies, fun _ => ?_⟩
      exact ⟨{ s with resumed := true }, accepted, by simp [hs], hAccepted, .inl rfl⟩

theorem keeps_send (bytes : Text) : Program.Keeps (Held P) (send env c bytes) :=
  .bind keeps_read fun _ => .ite ((held_passive c).keeps_fail _) <|
    .bind (fun _ h hr => h hr.tail) fun _ => .ite (keeps_pure _) (held_passive c).keeps_failMessage

theorem keeps_sendLine (s : Text) : Program.Keeps (Held P) (sendLine env c s) := keeps_send _

theorem keeps_call {conns : Nat → TlsConnection} (hOthers : P → ∀ i ≠ c, (conns i).Verified)
    (a : Call) : Program.Keeps (Held P) (call env conns c a) := by
  cases a with
  | connect host port implicitTls =>
    exact .bind (keeps_connect host port implicitTls) fun _ => keeps_pure _
  | startTls => exact .bind keeps_startTls fun _ => keeps_pure _
  | attachClient sockOpen host sessionFrom =>
    refine .bind (keeps_attachClient sockOpen host fun hP t ht other hOther hSecure => ?_)
      fun _ => keeps_pure _
    obtain ⟨i, -, rfl⟩ := Option.map_eq_some_iff.mp hOther
    split at hSecure
    next => exact absurd hSecure (by simp [ht])
    next hi =>
      rw [if_neg hi]
      exact (hOthers hP i hi).checked hSecure
  | send bytes => exact .bind (keeps_send bytes) fun _ => keeps_pure _
  | sendLine s => exact .bind (keeps_sendLine s) fun _ => keeps_pure _
  | readSome bytes => exact .bind ((held_passive c).keeps_readSome bytes) fun _ => keeps_pure _
  | readBytes bytes => exact .bind ((held_passive c).keeps_readBytes bytes) fun _ => keeps_pure _
  | readLine maxLen => exact .bind ((held_passive c).keeps_readLine maxLen) fun _ => keeps_pure _
  | readAll maxLen turns => exact .bind ((held_passive c).keeps_readAll maxLen turns) fun _ => keeps_pure _
  | close => exact keeps_close

end OneConnection

section Runs

variable {env : Environment NetAnswer}

/-- The invariant of all connections. -/
def AllVerified (D : Dialogue NetAnswer (Nat → TlsConnection)) : Prop :=
  Resumes D.trace → ∀ i, (D.state i).Verified

theorem keeps_onConnection (c : Nat) (a : Call) : Program.Keeps AllVerified (onConnection env c a) := by
  intro D hD
  unfold onConnection
  rw [ends_bind, ends_read, ends_zoom]
  have hHeld : Held (∀ i ≠ c, (D.state i).Verified) { state := D.state c, trace := D.trace } :=
    fun hr => ⟨fun i _ => hD hr i, hD hr c⟩
  have hUpdate (t : Dialogue NetAnswer TlsConnection)
      (ht : Held (∀ i ≠ c, (D.state i).Verified) t) :
      AllVerified { state := Function.update D.state c t.state, trace := t.trace } := by
    intro hr i
    obtain ⟨hOthers, hOwn⟩ := ht hr
    by_cases hi : i = c
    · simpa only [hi, Function.update_self] using hOwn
    · simpa only [Function.update_of_ne hi] using hOthers i hi
  exact (keeps_call (fun h => h) a _ hHeld).mono (fun _ t ht => hUpdate t ht) hUpdate

theorem step_allVerified {D : Dialogue NetAnswer (Nat → TlsConnection)} (hD : AllVerified D)
    (a : Nat × Call) : AllVerified ((connections env).step a D).2 :=
  (keeps_onConnection a.1 a.2 D hD).last

/-- Calls in any order and peers that answer as they like. -/
theorem run_checked (calls : List (Nat × Call)) :
    Resumes ((connections env).run calls fresh).2.trace →
      ∀ i, (((connections env).run calls fresh).2.state i).secure = true →
        (((connections env).run calls fresh).2.state i).Checked := by
  have hFresh : AllVerified fresh := fun _ _ => .of_plain rfl rfl
  have hRun : AllVerified ((connections env).run calls fresh).2 :=
    Machine.run_invariant (I := AllVerified) (P := fun _ _ => True) (fun a D hD _ => step_allVerified hD a) hFresh
      (Machine.along_of_forall (fun _ _ => trivial) _)
  exact fun hr i hSecure => (hRun hr i).checked hSecure

/-- Peers whose certificates are accepted, with the end of the handshakes that are offered a
session. -/
def accepting (outcome : Handshake) : Environment NetAnswer := fun _ r =>
  match r with
  | .connect .. | .initCtx _ | .openSsl _ | .verifyCert .. | .send .. => true
  | .createLocal _ | .openLocal _ | .writeLocal _ => true
  | .exceptionMessage _ | .peerAddress _ | .hostName | .smtpTime | .messageNumber => []
  | .handshake _ _ offered => if offered then outcome else .full
  | .fill .. | .readLocal => .closed

/-- A data connection that takes over the session of a control connection. -/
theorem run_checked_data :
    (((connections (accepting .resumed)).run [(0, .connect "ftp".toList 990 true),
      (1, .attachClient true "ftp".toList (some 0))] fresh).2.state 1).Checked :=
  run_checked [(0, .connect "ftp".toList 990 true), (1, .attachClient true "ftp".toList (some 0))]
    (by unfold Resumes; decide +kernel) 1 (by decide +kernel)

/-- A full handshake with a peer that was offered a session is taken for a resumed one. -/
theorem run_checked_not :
    ¬ ∀ (env : Environment NetAnswer) (calls : List (Nat × Call)) (i : Nat),
      (((connections env).run calls fresh).2.state i).secure = true →
        (((connections env).run calls fresh).2.state i).Checked := by
  intro h
  obtain ⟨s, host, hs, hAccepted, -⟩ := h (accepting .full)
    [(0, .connect "ftp".toList 990 true), (1, .attachClient true "ftp".toList (some 0))] 1
    (by decide +kernel)
  have hSsl : (((connections (accepting .full)).run [(0, .connect "ftp".toList 990 true),
      (1, .attachClient true "ftp".toList (some 0))] fresh).2.state 1).ssl =
        some { accepted := none, resumed := false } := by decide +kernel
  obtain rfl := Option.some.inj (hSsl.symm.trans hs)
  exact nomatch hAccepted

end Runs

end TlsConnection

end DataReel
