import DataReel.Net.Smtp

/-! # The POP3 client

`gxsPOP3Client`: commands, status lines and multi-line replies over connection
0. The results of a call that it passes back by reference are part of its value.
-/

namespace DataReel

open Program

structure Pop3Client where
  conn : TlsConnection := {}
  lastReply : Text := []
  error : Text := []
  deriving DecidableEq, Repr

namespace Pop3Client

variable (env : Environment NetAnswer)

def onConn {α : Type} (x : NetM TlsConnection α) : NetM Pop3Client α :=
  zoom Pop3Client.conn (fun t s => { s with conn := t }) x

def fail (msg : Text) : NetM Pop3Client Int := do
  update fun s => { s with error := msg }
  return -1

def connError (s : Pop3Client) : Text :=
  if s.conn.error.isEmpty then [] else ": ".toList ++ s.conn.error

def readStatus : NetM Pop3Client Int := do
  let line ← onConn (TlsConnection.readLine env 0 4096)
  update fun s => { s with lastReply := line.getD [] }
  match line with
  | none => do
    let s ← read
    fail ("POP3 exception: No reply from server".toList ++ connError s)
  | some line =>
    if Text.startsWith line "+OK".toList then
      return 0
    else
      fail ("POP3 exception: ".toList ++ line)

/-- A line of a multi-line reply without the dot that stuffs it. -/
def unstuff (line : Text) : Text :=
  if line.head? = some '.' then line.drop 1 else line

/-- The lines up to the terminating dot, after `data`. -/
def readMultiline (data : Text) : Nat → NetM Pop3Client (Int × Text)
  | 0 => throw .unfinished
  | n + 1 => do
    let line ← onConn (TlsConnection.readLine env 0 (1024 * 1024))
    match line with
    | none => do
      let s ← read
      let rv ← fail ("POP3 exception: Incomplete reply".toList ++ connError s)
      return (rv, data)
    | some line =>
      if line = ".".toList then
        return (0, data)
      else
        readMultiline (data ++ unstuff line ++ Text.crlf) n

def command (cmd : Text) : NetM Pop3Client Int := do
  if Text.hasBreak cmd then
    fail "POP3 exception: Command contains a line break".toList
  else
    let sent ← onConn (TlsConnection.sendLine env 0 cmd)
    if sent < 0 then
      let s ← read
      fail ("POP3 exception: ".toList ++ s.conn.error)
    else
      readStatus env

def connect (host : Text) (port : Int) (security : MailSecurity) : NetM Pop3Client Int := do
  update fun s => { s with error := [] }
  let connected ← onConn (TlsConnection.connect env 0 host port (security = .implicitTls))
  if connected ≠ 0 then
    let s ← read
    fail s.conn.error
  else
    let status ← readStatus env
    if status ≠ 0 then
      return -1
    else if security = .startTls then
      let rv ← command env "STLS".toList
      if rv ≠ 0 then
        onConn TlsConnection.close
        fail ("POP3 exception: ".toList ++ host ++ " does not accept STLS".toList)
      else
        let started ← onConn (TlsConnection.startTls env 0)
        let s ← read
        if started ≠ 0 then fail s.conn.error else return 0
    else
      return 0

def login (user passwd : Text) : NetM Pop3Client Int := do
  let rv ← command env ("USER ".toList ++ user)
  if rv ≠ 0 then return -1 else command env ("PASS ".toList ++ passwd)

def stat : NetM Pop3Client (Int × Int × Int) := do
  let rv ← command env "STAT".toList
  if rv ≠ 0 then
    return (-1, 0, 0)
  else
    let s ← read
    match Text.split s.lastReply ' ' true with
    | _ :: messages :: bytes :: _ => return (0, Text.atoi messages, Text.atoi bytes)
    | _ => do
      let rv ← fail ("POP3 exception: Bad STAT reply: ".toList ++ s.lastReply)
      return (rv, 0, 0)

/-- A command with a multi-line reply, of which the client reads up to `n` lines into `text`. -/
def multiline (n : Nat) (cmd text : Text) : NetM Pop3Client (Int × Text) := do
  let rv ← command env cmd
  if rv ≠ 0 then return (-1, text) else readMultiline env [] n

def list (n : Nat) (listing : Text) : NetM Pop3Client (Int × Text) :=
  multiline env n "LIST".toList listing

def retr (n : Nat) (messageNumber : Int) (message : Text) : NetM Pop3Client (Int × Text) :=
  multiline env n ("RETR ".toList ++ Text.ofInt messageNumber) message

def top (n : Nat) (messageNumber lines : Int) (message : Text) : NetM Pop3Client (Int × Text) :=
  multiline env n
    ("TOP ".toList ++ Text.ofInt messageNumber ++ " ".toList ++ Text.ofInt lines) message

def delete (messageNumber : Int) : NetM Pop3Client Int :=
  command env ("DELE ".toList ++ Text.ofInt messageNumber)

def reset : NetM Pop3Client Int := command env "RSET".toList

def quit : NetM Pop3Client Int := do
  let rv ← command env "QUIT".toList
  onConn TlsConnection.close
  return rv

def close : NetM Pop3Client Unit := onConn TlsConnection.close

/-- The public calls, with the setting that the modelled members hold. -/
inductive Call where
  | setVerifyPeer (on : Bool)
  | connect (host : Text) (port : Int) (security : MailSecurity)
  | login (user passwd : Text)
  | stat
  | list (n : Nat) (listing : Text)
  | retr (n : Nat) (messageNumber : Int) (message : Text)
  | top (n : Nat) (messageNumber lines : Int) (message : Text)
  | delete (messageNumber : Int)
  | reset
  | quit
  | close
  | command (cmd : Text)
  deriving DecidableEq, Repr

def exec : Call → NetM Pop3Client Unit
  | .setVerifyPeer on => onConn (update fun t => { t with verifyPeer := on })
  | .connect host port security => do let _ ← connect env host port security
  | .login user passwd => do let _ ← login env user passwd
  | .stat => do let _ ← stat env
  | .list n listing => do let _ ← list env n listing
  | .retr n messageNumber message => do let _ ← retr env n messageNumber message
  | .top n messageNumber lines message => do let _ ← top env n messageNumber lines message
  | .delete messageNumber => do let _ ← delete env messageNumber
  | .reset => do let _ ← reset env
  | .quit => do let _ ← quit env
  | .close => close
  | .command cmd => do let _ ← command env cmd

def machine : Machine Call Unit (Dialogue NetAnswer Pop3Client) where
  step c s := ((), last (exec env c s))

def start : Dialogue NetAnswer Pop3Client where
  state := {}
  trace := []

end Pop3Client

end DataReel
