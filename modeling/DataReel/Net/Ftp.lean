import DataReel.Net.Smtp

/-! # The FTP client

`gxsFTPClient`: the control connection is 0, and the data connection of a
transfer is 1. The results of a call that it passes back by reference are part
of its value.
-/

namespace DataReel

open Program

/-- A reply that `Command` took for the answer to a command, with what had happened before the
command was sent. -/
structure FtpAnswer where
  before : List (Sigma NetAnswer)
  cmd : Text
  reply : Text

/-- `answers` is a record of the replies that were used and no member of the source. -/
structure FtpClient where
  conn : TlsConnection := {}
  data : TlsConnection := {}
  hostName : Text := []
  lastCode : Int := 0
  lastReply : Text := []
  error : Text := []
  answers : List FtpAnswer := []

namespace FtpClient

variable (env : Environment NetAnswer)

def onConn {α : Type} (x : NetM TlsConnection α) : NetM FtpClient α :=
  zoom FtpClient.conn (fun t s => { s with conn := t }) x

def onData {α : Type} (x : NetM TlsConnection α) : NetM FtpClient α :=
  zoom FtpClient.data (fun t s => { s with data := t }) x

def fail (msg : Text) : NetM FtpClient Int := do
  update fun s => { s with error := msg }
  return -1

def connError (s : FtpClient) : Text :=
  if s.conn.error.isEmpty then [] else ": ".toList ++ s.conn.error

/-- The line ends a reply of several lines with this code. -/
def endsReply (code line : Text) : Bool := line.take 3 = code && (line)[3]? = some ' '

/-- The lines of a reply after its first. -/
def moreLines (code : Text) : Nat → NetM FtpClient Bool
  | 0 => do
    let _ ← fail "FTP exception: Incomplete reply".toList
    return false
  | n + 1 => do
    let line ← onConn (TlsConnection.readLine env 0 8192)
    match line with
    | none => do
      let _ ← fail "FTP exception: Incomplete reply".toList
      return false
    | some line => do
      update fun s => { s with lastReply := s.lastReply ++ '\n' :: line }
      if endsReply code line then return true else moreLines code n

/-- The lines that a first line announces. -/
def restOfReply (line : Text) : NetM FtpClient Bool :=
  if (line)[3]? = some '-' then moreLines env (line.take 3) 10001 else return true

def readReply : NetM FtpClient Int := do
  update fun s => { s with lastReply := [], lastCode := 0 }
  let line ← onConn (TlsConnection.readLine env 0 8192)
  match line with
  | none => do
    let s ← read
    fail ("FTP exception: No reply from server".toList ++ connError s)
  | some line => do
    update fun s => { s with lastReply := line }
    if line.length < 3 then
      fail ("FTP exception: Bad reply: ".toList ++ line)
    else
      let complete ← restOfReply env line
      if complete then
        update fun s => { s with lastCode := Text.atoi (line.take 3) }
        return Text.atoi (line.take 3)
      else
        return -1

/-- The reply is used as the answer to a command that was sent after `before`. -/
def record (before : List (Sigma NetAnswer)) (cmd : Text) (s : FtpClient) : FtpClient :=
  { s with answers := { before, cmd, reply := s.lastReply } :: s.answers }

def command (cmd expect : Text) : NetM FtpClient Int := do
  if Text.hasBreak cmd then
    fail "FTP exception: Command contains a line break".toList
  else
    let before ← history
    let sent ← onConn (TlsConnection.sendLine env 0 cmd)
    if sent < 0 then
      let s ← read
      fail ("FTP exception: ".toList ++ s.conn.error)
    else
      let code ← readReply env
      if code < 0 then
        return -1
      else
        update (record before cmd)
        let s ← read
        if Text.startsWith (Text.ofInt s.lastCode) expect then
          return 0
        else
          fail ("FTP exception: ".toList ++ s.lastReply)

def connect (host : Text) (port : Int) (security : MailSecurity) : NetM FtpClient Int := do
  update fun s => { s with error := [], hostName := host }
  let connected ← onConn (TlsConnection.connect env 0 host port (security = .implicitTls))
  if connected ≠ 0 then
    let s ← read
    fail s.conn.error
  else
    let code ← readReply env
    let s ← read
    if code < 0 then
      return -1
    else if s.lastCode ≠ 220 then
      fail ("FTP exception: ".toList ++ s.lastReply)
    else if security = .startTls then
      let rv ← command env "AUTH TLS".toList "234".toList
      if rv ≠ 0 then
        onConn TlsConnection.close
        fail ("FTP exception: ".toList ++ host ++ " does not accept AUTH TLS".toList)
      else
        let started ← onConn (TlsConnection.startTls env 0)
        let s ← read
        if started ≠ 0 then fail s.conn.error else return 0
    else
      return 0

def type (c : Char) : NetM FtpClient Int := command env ("TYPE ".toList ++ [c]) "2".toList

/-- What a login sends after the password: every data connection is encrypted. -/
def protect : NetM FtpClient Int := do
  let rv ← command env "PBSZ 0".toList "2".toList
  if rv ≠ 0 then
    return -1
  else
    let rv ← command env "PROT P".toList "2".toList
    if rv ≠ 0 then return -1 else type env 'I'

def login (user passwd : Text) : NetM FtpClient Int := do
  let rv ← command env ("USER ".toList ++ user) []
  let s ← read
  if rv ≠ 0 then
    return -1
  else if s.lastCode = 331 then
    let rv ← command env ("PASS ".toList ++ passwd) "2".toList
    if rv ≠ 0 then return -1 else protect env
  else if s.lastCode / 100 ≠ 2 then
    fail ("FTP exception: ".toList ++ s.lastReply)
  else
    protect env

/-- What follows the first `p` in a text. -/
def following (p : Text) : Text → Option Text
  | [] => if p.isEmpty then some [] else none
  | c :: s => if p.isPrefixOf (c :: s) then some ((c :: s).drop p.length) else following p s

/-- The port in a reply to `EPSV`, or 0. -/
def extendedPort (reply : Text) : Int :=
  match following "(|||".toList reply with
  | some s => Text.atoi s
  | none => 0

/-- The port in a reply to `PASV`, if the reply is one. -/
def passivePort (reply : Text) : Option Int :=
  match following "(".toList reply with
  | none => none
  | some s =>
    if s.contains ')' then
      match Text.split (s.takeWhile (· ≠ ')')) ',' false with
      | [_, _, _, _, high, low] => some (Text.atoi high * 256 + Text.atoi low)
      | _ => none
    else none

/-- The port for the data connection, or none if it could not be had. -/
def dataPort : NetM FtpClient (Option Int) := do
  let rv ← command env "EPSV".toList "229".toList
  let s ← read
  let port := if rv = 0 then extendedPort s.lastReply else 0
  if port ≤ 0 then
    let rv ← command env "PASV".toList "227".toList
    let s ← read
    if rv ≠ 0 then
      return none
    else
      match passivePort s.lastReply with
      | none => do
        let _ ← fail ("FTP exception: Bad PASV reply: ".toList ++ s.lastReply)
        return none
      | some port => return some port
  else
    return some port

/-- The socket of the data connection. -/
def openSocket (port : Int) : NetM FtpClient Int := do
  let addr ← ask env (.peerAddress 0)
  let connected ← ask env (.connect 1 addr port)
  if connected then
    return 0
  else
    let msg ← ask env (.exceptionMessage 1)
    fail ("FTP exception: Data connection: ".toList ++ msg)

/-- The data connection takes over the session of the control connection. -/
def attachData : NetM FtpClient Int := do
  let s ← read
  let attached ← onData (TlsConnection.attachClient env 1 true s.hostName fun _ => some s.conn)
  if attached ≠ 0 then
    let s ← read
    fail ("FTP exception: Data connection TLS: ".toList ++ s.data.error)
  else
    return 0

def openData (cmd : Text) : NetM FtpClient Int := do
  update fun s => { s with data := {} }
  let port ← dataPort env
  match port with
  | none => return -1
  | some port =>
    if port ≤ 0 ∨ 65535 < port then
      fail "FTP exception: Bad data port".toList
    else do
      let opened ← openSocket env port
      if opened ≠ 0 then
        return -1
      else
        let rv ← command env cmd "1".toList
        if rv ≠ 0 then return -1 else attachData env

def finishData : NetM FtpClient Int := do
  onData TlsConnection.close
  let code ← readReply env
  let s ← read
  if code < 0 then
    return -1
  else if s.lastCode / 100 ≠ 2 then
    fail ("FTP exception: ".toList ++ s.lastReply)
  else
    return 0

/-- A transfer that failed: the final reply is read and not used. -/
def abortData (msg : Text) : NetM FtpClient Int := do
  onData TlsConnection.close
  let _ ← readReply env
  fail msg

/-- A transfer to a string, which receives up to `n` times. -/
def download (n : Nat) (cmd msg : Text) : NetM FtpClient (Int × Text) := do
  let rv ← openData env cmd
  if rv ≠ 0 then
    return (-1, [])
  else
    let out ← onData (TlsConnection.readAll env 1 none n)
    match out with
    | none => do
      let s ← read
      let rv ← abortData env (msg ++ s.data.error)
      return (rv, [])
    | some out => do
      let rv ← finishData env
      return (rv, out)

def list (n : Nat) (path : Text) (full : Bool) : NetM FtpClient (Int × Text) :=
  download env n ((if full then "LIST".toList else "NLST".toList) ++
    if path.isEmpty then [] else ' ' :: path) "FTP exception: Listing failed: ".toList

def getString (n : Nat) (remote : Text) : NetM FtpClient (Int × Text) :=
  download env n ("RETR ".toList ++ remote) "FTP exception: Download failed: ".toList

/-- The loop of `Get`, after `bytes` bytes. -/
def getLoop (localFname : Text) (bytes : Int) : Nat → NetM FtpClient (Int × Int)
  | 0 => throw .unfinished
  | n + 1 => do
    let received ← onData (TlsConnection.readSome env 1 65536)
    if received.1 = 0 then
      let rv ← finishData env
      return (rv, bytes)
    else if received.1 < 0 then
      let s ← read
      let rv ← abortData env ("FTP exception: Download failed: ".toList ++ s.data.error)
      return (rv, bytes)
    else
      let written ← ask env (.writeLocal received.2)
      if written then
        getLoop localFname (bytes + received.1) n
      else
        let rv ← abortData env ("FTP exception: Cannot write ".toList ++ localFname)
        return (rv, bytes)

def get (n : Nat) (remote localFname : Text) : NetM FtpClient (Int × Int) := do
  let created ← ask env (.createLocal localFname)
  if created then
    let rv ← openData env ("RETR ".toList ++ remote)
    if rv ≠ 0 then return (-1, 0) else getLoop env localFname 0 n
  else
    let rv ← fail ("FTP exception: Cannot create ".toList ++ localFname)
    return (rv, 0)

def putString (bytes remote : Text) : NetM FtpClient Int := do
  let rv ← openData env ("STOR ".toList ++ remote)
  if rv ≠ 0 then
    return -1
  else
    let sent ← onData (TlsConnection.send env 1 bytes)
    let s ← read
    if sent < 0 then
      abortData env ("FTP exception: Upload failed: ".toList ++ s.data.error)
    else
      finishData env

/-- The loop of `Put`, after `bytes` bytes. -/
def putLoop (localFname : Text) (bytes : Int) : Nat → NetM FtpClient (Int × Int)
  | 0 => throw .unfinished
  | n + 1 => do
    let part ← ask env .readLocal
    match part with
    | .closed => do
      let rv ← finishData env
      return (rv, bytes)
    | .failed => do
      let rv ← abortData env ("FTP exception: Cannot read ".toList ++ localFname)
      return (rv, bytes)
    | .data c s => do
      let sent ← onData (TlsConnection.send env 1 (c :: s))
      if sent < 0 then
        let s ← read
        let rv ← abortData env ("FTP exception: Upload failed: ".toList ++ s.data.error)
        return (rv, bytes)
      else
        putLoop localFname (bytes + (c :: s).length) n

def put (n : Nat) (localFname remote : Text) : NetM FtpClient (Int × Int) := do
  let opened ← ask env (.openLocal localFname)
  if opened then
    let rv ← openData env ("STOR ".toList ++ remote)
    if rv ≠ 0 then return (-1, 0) else putLoop env localFname 0 n
  else
    let rv ← fail ("FTP exception: Cannot open ".toList ++ localFname)
    return (rv, 0)

def chDir (dir : Text) : NetM FtpClient Int := command env ("CWD ".toList ++ dir) "2".toList

def mkDir (dir : Text) : NetM FtpClient Int := command env ("MKD ".toList ++ dir) "2".toList

def rmDir (dir : Text) : NetM FtpClient Int := command env ("RMD ".toList ++ dir) "2".toList

/-- A quoted name up to its closing quote; a quote in it is doubled. -/
def quoted : Text → Text
  | '"' :: '"' :: s => '"' :: quoted s
  | '"' :: _ => []
  | c :: s => c :: quoted s
  | [] => []

def pwd : NetM FtpClient (Int × Text) := do
  let rv ← command env "PWD".toList "257".toList
  let s ← read
  if rv ≠ 0 then
    return (-1, [])
  else
    match following "\"".toList s.lastReply with
    | none => return (0, [])
    | some name => return (0, quoted name)

def size (path : Text) : NetM FtpClient (Int × Int) := do
  let rv ← command env ("SIZE ".toList ++ path) "213".toList
  let s ← read
  if rv ≠ 0 then return (-1, -1) else return (0, Text.atoi (s.lastReply.drop 4))

def delete (path : Text) : NetM FtpClient Int := command env ("DELE ".toList ++ path) "2".toList

def rename (path newPath : Text) : NetM FtpClient Int := do
  let rv ← command env ("RNFR ".toList ++ path) "350".toList
  if rv ≠ 0 then return -1 else command env ("RNTO ".toList ++ newPath) "2".toList

def quit : NetM FtpClient Int := do
  let rv ← command env "QUIT".toList "2".toList
  onConn TlsConnection.close
  return rv

def close : NetM FtpClient Unit := onConn TlsConnection.close

/-- The public calls, with the setting that the modelled members hold; `n` bounds how often a
transfer receives. -/
inductive Call where
  | setVerifyPeer (on : Bool)
  | connect (host : Text) (port : Int) (security : MailSecurity)
  | login (user passwd : Text)
  | type (c : Char)
  | list (n : Nat) (path : Text) (full : Bool)
  | chDir (dir : Text)
  | mkDir (dir : Text)
  | rmDir (dir : Text)
  | pwd
  | size (path : Text)
  | delete (path : Text)
  | rename (path newPath : Text)
  | get (n : Nat) (remote localFname : Text)
  | put (n : Nat) (localFname remote : Text)
  | getString (n : Nat) (remote : Text)
  | putString (bytes remote : Text)
  | quit
  | close
  | command (cmd expect : Text)
  deriving DecidableEq, Repr

def exec : Call → NetM FtpClient Unit
  | .setVerifyPeer on => onConn (update fun t => { t with verifyPeer := on })
  | .connect host port security => do let _ ← connect env host port security
  | .login user passwd => do let _ ← login env user passwd
  | .type c => do let _ ← type env c
  | .list n path full => do let _ ← list env n path full
  | .chDir dir => do let _ ← chDir env dir
  | .mkDir dir => do let _ ← mkDir env dir
  | .rmDir dir => do let _ ← rmDir env dir
  | .pwd => do let _ ← pwd env
  | .size path => do let _ ← size env path
  | .delete path => do let _ ← delete env path
  | .rename path newPath => do let _ ← rename env path newPath
  | .get n remote localFname => do let _ ← get env n remote localFname
  | .put n localFname remote => do let _ ← put env n localFname remote
  | .getString n remote => do let _ ← getString env n remote
  | .putString bytes remote => do let _ ← putString env bytes remote
  | .quit => do let _ ← quit env
  | .close => close
  | .command cmd expect => do let _ ← command env cmd expect

def machine : Machine Call Unit (Dialogue NetAnswer FtpClient) where
  step c s := ((), last (exec env c s))

/-- Calls in a row, up to one that does not return. -/
def session : List Call → NetM FtpClient Unit
  | [] => return
  | a :: calls => do
    exec env a
    session calls

/-- A client that was just made. -/
def start : Dialogue NetAnswer FtpClient where
  state := {}
  trace := []

end FtpClient

end DataReel
