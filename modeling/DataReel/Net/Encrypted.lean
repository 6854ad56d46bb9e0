import DataReel.Net.Reading

/-! # What a connection sends in plain text

A connection that is closed or secure sends nothing in plain text. This is what
a client has to see to before it sends more than the lines that ask for TLS.
-/

namespace DataReel

open Program

variable {L : Text → Prop}

/-- The bytes that a request sends in plain text. -/
def NetRequest.plain : NetRequest → Option Text
  | .send _ false bytes => some bytes
  | _ => none

def sentPlain (trace : List (Sigma NetAnswer)) : List Text := trace.filterMap fun e => e.1.plain

/-- Only lines of `L` were sent in plain text. -/
def Clean (L : Text → Prop) (trace : List (Sigma NetAnswer)) : Prop :=
  ∀ bytes ∈ sentPlain trace, ∃ line, bytes = line ++ Text.crlf ∧ Text.hasBreak line = false ∧ L line

theorem Clean.cons {trace : List (Sigma NetAnswer)} {r : NetRequest} {a : NetAnswer r}
    (h : Clean L trace) (hr : r.plain = none) : Clean L (⟨r, a⟩ :: trace) := by
  intro bytes hMem
  rw [sentPlain, List.filterMap_cons_none (by exact hr)] at hMem
  exact h bytes hMem

theorem Clean.cons_line {trace : List (Sigma NetAnswer)} {c : Nat} {line : Text} {a : Bool}
    (h : Clean L trace) (hBreak : Text.hasBreak line = false) (hLine : L line) :
    Clean L (⟨.send c false (line ++ Text.crlf), a⟩ :: trace) := by
  intro bytes hMem
  rcases List.mem_cons.mp hMem with rfl | hMem
  · exact ⟨line, rfl, hBreak, hLine⟩
  · exact h bytes hMem

namespace TlsConnection

/-- What was sent is clean, and where `g` holds an open connection is secure. -/
def Guard (L : Text → Prop) (g : Prop) (D : Dialogue NetAnswer TlsConnection) : Prop :=
  Clean L D.trace ∧ (g → D.state.isOpen = true → D.state.secure = true)

variable {env : Environment NetAnswer} {c : Nat} {g : Prop}

theorem Guard.weaken {D : Dialogue NetAnswer TlsConnection} {h : Prop} (hD : Guard L g D)
    (hg : h → g) : Guard L h D := ⟨hD.1, fun hh => hD.2 (hg hh)⟩

theorem guard_false {D : Dialogue NetAnswer TlsConnection} (h : Clean L D.trace) :
    Guard L False D := ⟨h, False.elim⟩

theorem guard_passive (c : Nat) : Passive c (Guard L g) where
  message h := ⟨h.1.cons rfl, h.2⟩
  fill h := ⟨h.1.cons rfl, h.2⟩
  error h := h
  rbuf h := h

theorem guard_close : Program.Keeps (Guard L g) close := fun _ h => ⟨h.1, fun _ => nofun⟩

/-- Nothing but a secure connection comes of a call that returns 0. -/
def Secures (L : Text → Prop) (x : NetM TlsConnection Int) : Prop :=
  ∀ D, Clean L D.trace → Ends x D (fun r t => Guard L (r = 0) t) (Guard L False)

theorem Secures.keeps {x : NetM TlsConnection Int} (h : Secures L x) : Program.Keeps (Guard L False) x :=
  fun D hD => (h D hD.1).mono (fun _ _ ht => ht.weaken False.elim) fun _ => id

theorem secures_fail (msg : Text) : Secures L (fail msg) := fun _ hD =>
  ⟨hD, fun h => absurd h (by decide)⟩

theorem secures_failMessage : Secures L (failMessage env c) := fun _ hD =>
  secures_fail _ _ (hD.cons rfl)

theorem secures_tlsHandshake : Secures L (tlsHandshake env c) := by
  intro D hD
  unfold tlsHandshake
  simp only [ends_bind, ends_ask, ends_read, ends_ite, ends_update, ends_pure]
  refine ⟨fun _ => ⟨fun _ => ?_, fun _ => ⟨fun _ => ⟨fun _ => ?_, fun _ => ?_⟩, fun _ => ?_⟩⟩,
    fun _ => ?_⟩
  · exact secures_failMessage _ ((hD.cons rfl).cons rfl)
  · exact ⟨((hD.cons rfl).cons rfl).cons rfl, fun _ _ => rfl⟩
  · exact secures_failMessage _ (((hD.cons rfl).cons rfl).cons rfl)
  · exact ⟨(hD.cons rfl).cons rfl, fun _ _ => rfl⟩
  · exact secures_failMessage _ (hD.cons rfl)

theorem secures_startTls : Secures L (startTls env c) := by
  intro D hD
  unfold startTls
  simp only [ends_bind, ends_read, ends_ite, ends_update, ends_ask, ends_pure]
  refine ⟨fun _ => secures_fail _ _ hD, fun _ => ⟨fun hSecure => ⟨hD, fun _ _ => hSecure⟩,
    fun _ => ⟨fun _ => ?_, fun _ => ?_⟩⟩⟩
  · exact secures_tlsHandshake _ (hD.cons rfl)
  · exact secures_failMessage _ (hD.cons rfl)

theorem guard_connect (host : Text) (port : Int) (implicitTls : Bool) :
    Program.Keeps (Guard L False) (connect env c host port implicitTls) := by
  intro D hD
  unfold connect
  simp only [close, ends_bind, ends_update, ends_ite, ends_ask, ends_pure]
  refine ⟨fun _ => ⟨fun _ => ?_, fun _ => ?_⟩, fun _ => ?_⟩
  · exact secures_startTls.keeps _ (guard_false (hD.1.cons rfl))
  · exact guard_false (hD.1.cons rfl)
  · exact (secures_fail _).keeps _ (guard_false ((hD.1.cons rfl).cons rfl))

theorem secures_attachClient (sockOpen : Bool) (host : Text)
    (sessionFrom : TlsConnection → Option TlsConnection) :
    Secures L (attachClient env c sockOpen host sessionFrom) := by
  intro D hD
  unfold attachClient
  simp only [close, ends_bind, ends_update, ends_read]
  split
  next => exact secures_startTls _ hD
  next other _ =>
    simp only [ends_bind, ends_ask, ends_ite]
    refine ⟨fun _ => ?_, fun _ => secures_failMessage _ (hD.cons rfl)⟩
    split
    next => exact secures_failMessage _ ((hD.cons rfl).cons rfl)
    next => exact ⟨(hD.cons rfl).cons rfl, fun _ _ => rfl⟩
    next => exact ⟨(hD.cons rfl).cons rfl, fun _ _ => rfl⟩

theorem guard_send (hg : g) (bytes : Text) : Program.Keeps (Guard L g) (send env c bytes) := by
  intro D hD
  unfold send
  simp only [ends_bind, ends_read, ends_ite, ends_ask, ends_pure]
  refine ⟨fun _ => (guard_passive c).keeps_fail _ _ hD, fun hOpen => ?_⟩
  have hSecure : D.state.secure = true := hD.2 hg (by simpa using hOpen)
  have hSent {sent : Bool} : Guard L g
      { D with trace := ⟨.send c D.state.secure bytes, sent⟩ :: D.trace } :=
    ⟨hD.1.cons (by simp [NetRequest.plain, hSecure]), hD.2⟩
  exact ⟨fun _ => hSent, fun _ => (guard_passive c).keeps_failMessage _ hSent⟩

theorem guard_sendLine {line : Text} (hBreak : Text.hasBreak line = false) (hLine : g ∨ L line) :
    Program.Keeps (Guard L g) (sendLine env c line) := by
  rcases hLine with hg | hLine
  · exact guard_send hg _
  · intro D hD
    unfold sendLine send
    simp only [ends_bind, ends_read, ends_ite, ends_ask, ends_pure]
    refine ⟨fun _ => (guard_passive c).keeps_fail _ _ hD, fun _ => ?_⟩
    have hSent {secure sent : Bool} : Guard L g
        { D with trace := ⟨.send c secure (line ++ Text.crlf), sent⟩ :: D.trace } := by
      cases secure with
      | false => exact ⟨hD.1.cons_line hBreak hLine, hD.2⟩
      | true => exact ⟨hD.1.cons rfl, hD.2⟩
    exact ⟨fun _ => hSent, fun _ => (guard_passive c).keeps_failMessage _ hSent⟩

end TlsConnection

end DataReel
