import DataReel.Net.TlsConnection

/-! # What reading from a connection keeps

The calls that read change the buffer and the error text alone and ask for
bytes and for the texts of errors alone.
-/

namespace DataReel

open Program

namespace TlsConnection

/-- What reading can not break. -/
structure Passive (c : Nat) (I : Dialogue NetAnswer TlsConnection → Prop) : Prop where
  message : ∀ {D m}, I D → I { D with trace := ⟨.exceptionMessage c, m⟩ :: D.trace }
  fill : ∀ {D secure r}, I D → I { D with trace := ⟨.fill c secure, r⟩ :: D.trace }
  error : ∀ {D m}, I D → I { D with state := { D.state with error := m } }
  rbuf : ∀ {D b}, I D → I { D with state := { D.state with rbuf := b } }

namespace Passive

variable {env : Environment NetAnswer} {c : Nat} {I : Dialogue NetAnswer TlsConnection → Prop}
  (hI : Passive c I)

include hI

theorem keeps_fail (msg : Text) : Program.Keeps I (TlsConnection.fail msg) :=
  .bind (fun _ h => hI.error h) fun _ => keeps_pure _

theorem keeps_failMessage : Program.Keeps I (failMessage env c) :=
  .bind (fun _ h => hI.message h) fun _ => hI.keeps_fail _

theorem keeps_rbuf (f : TlsConnection → Text) :
    Program.Keeps I (update (fun t => { t with rbuf := f t }) : NetM TlsConnection Unit) :=
  fun _ h => hI.rbuf h

theorem keeps_fill : Program.Keeps I (TlsConnection.fill env c) := by
  refine .bind keeps_read fun _ => .bind (fun _ h => hI.fill h) fun received => ?_
  cases received with
  | data ch s => exact .bind (hI.keeps_rbuf _) fun _ => keeps_pure _
  | closed => exact keeps_pure _
  | failed => exact hI.keeps_failMessage

theorem keeps_readSome (bytes : Nat) : Program.Keeps I (readSome env c bytes) := by
  refine .ite (keeps_pure _) (.bind ?_ fun _ => .ite (keeps_pure _) ?_)
  · exact .bind keeps_read fun _ => .ite hI.keeps_fill (keeps_pure _)
  · exact .bind keeps_read fun _ => .bind (hI.keeps_rbuf _) fun _ => keeps_pure _

theorem keeps_readLoop (bytes n : Nat) : Program.Keeps I (readLoop env c bytes n) := by
  induction n with
  | zero => exact keeps_pure _
  | succ n ih =>
    refine .bind keeps_read fun _ => .ite ?_ (keeps_pure _)
    exact .bind hI.keeps_fill fun _ => .ite (keeps_pure _) ih

theorem keeps_readBytes (bytes : Nat) : Program.Keeps I (readBytes env c bytes) :=
  .bind (hI.keeps_readLoop bytes bytes) fun _ => .bind keeps_read fun _ =>
    .bind (hI.keeps_rbuf _) fun _ => keeps_pure _

theorem keeps_readLineLoop (maxLen n : Nat) : Program.Keeps I (readLineLoop env c maxLen n) := by
  induction n with
  | zero => exact keeps_pure _
  | succ n ih =>
    refine .bind keeps_read fun _ => .ite (keeps_pure _) (.ite ?_ ?_)
    · exact .bind (hI.keeps_fail _) fun _ => keeps_pure _
    · exact .bind hI.keeps_fill fun _ => .ite (keeps_pure _) ih

theorem keeps_readLine (maxLen : Nat) : Program.Keeps I (readLine env c maxLen) := by
  refine .bind (hI.keeps_readLineLoop _ _) fun _ => .ite ?_ (keeps_pure _)
  refine .bind keeps_read fun _ => .ite ?_ ?_
  · exact .bind (hI.keeps_fail _) fun _ => keeps_pure _
  · exact .bind (hI.keeps_rbuf _) fun _ => keeps_pure _

theorem keeps_readAll (maxLen : Option Nat) (n : Nat) : Program.Keeps I (readAll env c maxLen n) := by
  induction n with
  | zero => exact keeps_throw _
  | succ n ih =>
    refine .bind keeps_read fun _ =>
      .ite ?_ (.bind hI.keeps_fill fun _ => .ite ?_ (.ite (keeps_pure _) ih))
    · exact .bind (hI.keeps_fail _) fun _ => keeps_pure _
    · exact .bind keeps_read fun _ => .bind (hI.keeps_rbuf _) fun _ => keeps_pure _

end Passive

end TlsConnection

end DataReel
