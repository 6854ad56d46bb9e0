import DataReel.Net.Ftp

/-! # The FTP server and the stream of its replies

A server answers a command with one reply, or a transfer with a second one that
ends it. What it has sent and the client has not received yet follows from what
happened on the control connection.
-/

namespace DataReel

open Program

namespace FtpClient

/-- The last of these lines alone ends a reply. -/
def closes (code : Text) : List Text → Bool
  | [] => false
  | [line] => endsReply code line
  | line :: lines => !endsReply code line && closes code lines

/-- A reply of at most as many and as long lines as the client reads. -/
structure Reply where
  first : Text
  more : List Text
  long : 3 ≤ first.length
  code : 100 ≤ Text.atoi (first.take 3) ∧ Text.atoi (first.take 3) < 600
  fits : ∀ line ∈ first :: more, '\n' ∉ line ∧ line.length < 8192
  count : more.length ≤ 10001
  whole : if first[3]? = some '-' then closes (first.take 3) more = true else more = []

namespace Reply

/-- The reply on the wire. -/
def wire (r : Reply) : Text := (r.first :: r.more).flatMap (· ++ Text.crlf)

/-- The reply as the client keeps it. -/
def text (r : Reply) : Text := r.first ++ r.more.flatMap ('\n' :: ·)

def value (r : Reply) : Int := Text.atoi (r.first.take 3)

def preliminary (r : Reply) : Bool := r.value < 200

end Reply

/-- The commands that a server may answer with a second reply. -/
def isTransfer (cmd : Text) : Bool :=
  ["LIST".toList, "NLST".toList, "RETR".toList, "STOR".toList].contains
    (Text.upper (cmd.takeWhile (· ≠ ' ')))

/-- A server, by what it does after all that happened. -/
structure Server where
  greeting : List (Sigma NetAnswer) → Reply
  answer : List (Sigma NetAnswer) → Text → Reply
  final : List (Sigma NetAnswer) → Text → Option Reply
  /-- A transfer is refused or has a preliminary and a final reply; all else has one reply. -/
  single : ∀ before cmd, (final before cmd).isSome ↔
    isTransfer cmd ∧ (answer before cmd).preliminary = true

namespace Server

variable (S : Server)

/-- All that the server sends for a command. -/
def replies (before : List (Sigma NetAnswer)) (cmd : Text) : Text :=
  (S.answer before cmd).wire ++ ((S.final before cmd).map Reply.wire).getD []

/-- What the server has sent over the control connection and the client has not received. -/
def stream : List (Sigma NetAnswer) → Text
  | [] => []
  | ⟨.connect 0 _ _, connected⟩ :: before => if connected then (S.greeting before).wire else []
  | ⟨.send 0 _ bytes, sent⟩ :: before =>
    if sent then stream before ++ S.replies before (bytes.take (bytes.length - 2)) else stream before
  | ⟨.fill 0 _, .data _ s⟩ :: before => (stream before).drop (s.length + 1)
  | _ :: before => stream before

/-- Bytes are received in the order in which the server sent them. -/
def Delivers (env : Environment NetAnswer) : Prop :=
  ∀ before secure c s, env before (.fill 0 secure) = .data c s → c :: s <+: S.stream before

/-- The reply is the answer of the server to this very command. -/
def Answers (e : FtpAnswer) : Prop := e.reply = (S.answer e.before e.cmd).text

instance (e : FtpAnswer) : Decidable (S.Answers e) := inferInstanceAs (Decidable (_ = _))

end Server

/-- A reply may be left on the control connection: a read from it failed, or TLS could not be
had on it or on the data connection. -/
def breaks : Sigma NetAnswer → Bool
  | ⟨.fill 0 _, received⟩ => decide (received = .closed) || decide (received = .failed)
  | ⟨.initCtx _, ready⟩ => !ready
  | ⟨.openSsl _, opened⟩ => !opened
  | ⟨.handshake _ _ _, outcome⟩ => decide (outcome = .failed)
  | ⟨.verifyCert _ _, valid⟩ => !valid
  | _ => false

/-- This happened since the control connection was made. -/
def lost : List (Sigma NetAnswer) → Bool
  | [] => false
  | ⟨.connect 0 _ _, _⟩ :: _ => false
  | e :: before => breaks e || lost before

/-- A line goes to the server. -/
def commands : NetRequest → Bool
  | .send 0 _ _ => true
  | _ => false

/-- No command was sent while a reply may have been left. -/
def Dependable : List (Sigma NetAnswer) → Prop
  | [] => True
  | e :: before => (commands e.1 = true → lost before = false) ∧ Dependable before

instance instDecidableDependable : ∀ trace, Decidable (Dependable trace)
  | [] => isTrue trivial
  | _ :: before =>
    have : Decidable (Dependable before) := instDecidableDependable before
    inferInstanceAs (Decidable (_ ∧ _))

/-- What neither sends nor receives on the control connection. -/
def neutral : NetRequest → Bool
  | .connect 0 _ _ | .send 0 _ _ | .fill 0 _ => false
  | _ => true

end FtpClient

end DataReel
