import DataReel.Net.Ftp
import DataReel.Net.Reading

/-! # What reading a reply of the FTP server keeps -/

namespace DataReel

open Program

namespace FtpClient

/-- What reading a reply can not break. -/
structure Idle (I : Dialogue NetAnswer FtpClient → Prop) : Prop where
  message : ∀ {D m}, I D → I { D with trace := ⟨.exceptionMessage 0, m⟩ :: D.trace }
  fill : ∀ {D secure r}, I D → I { D with trace := ⟨.fill 0 secure, r⟩ :: D.trace }
  error : ∀ {D m}, I D → I { D with state := { D.state with error := m } }
  reply : ∀ {D code text}, I D →
    I { D with state := { D.state with lastCode := code, lastReply := text } }
  connError : ∀ {D m}, I D →
    I { D with state := { D.state with conn := { D.state.conn with error := m } } }
  connRbuf : ∀ {D b}, I D →
    I { D with state := { D.state with conn := { D.state.conn with rbuf := b } } }

namespace Idle

variable {env : Environment NetAnswer} {I : Dialogue NetAnswer FtpClient → Prop} (hI : Idle I)

include hI

theorem passive (s : FtpClient) :
    TlsConnection.Passive 0 fun t => I { state := { s with conn := t.state }, trace := t.trace } where
  message h := hI.message h
  fill h := hI.fill h
  error h := hI.connError h
  rbuf h := hI.connRbuf h

theorem keeps_fail (msg : Text) : Program.Keeps I (FtpClient.fail msg) :=
  .bind (fun _ h => hI.error h) fun _ => keeps_pure _

theorem keeps_readLine (maxLen : Nat) : Program.Keeps I (onConn (TlsConnection.readLine env 0 maxLen)) := by
  intro D hD
  exact ends_zoom.mpr ((hI.passive D.state).keeps_readLine maxLen { state := D.state.conn, trace := D.trace } hD)

theorem keeps_moreLines (code : Text) (n : Nat) : Program.Keeps I (moreLines env code n) := by
  induction n with
  | zero => exact .bind (hI.keeps_fail _) fun _ => keeps_pure _
  | succ n ih =>
    refine .bind (hI.keeps_readLine _) fun line => ?_
    cases line with
    | none => exact .bind (hI.keeps_fail _) fun _ => keeps_pure _
    | some line => exact .bind (fun _ h => hI.reply h) fun _ => .ite (keeps_pure _) ih

theorem keeps_readReply : Program.Keeps I (readReply env) := by
  refine .bind (fun _ h => hI.reply h) fun _ => .bind (hI.keeps_readLine _) fun line => ?_
  cases line with
  | none => exact .bind keeps_read fun _ => hI.keeps_fail _
  | some line =>
    refine .bind (fun _ h => hI.reply h) fun _ => .ite (hI.keeps_fail _) ?_
    refine .bind (.ite (hI.keeps_moreLines _ _) (keeps_pure _)) fun _ => .ite ?_ (keeps_pure _)
    exact .bind (fun _ h => hI.reply h) fun _ => keeps_pure _

end Idle

end FtpClient

end DataReel
