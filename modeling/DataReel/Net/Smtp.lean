import DataReel.Library.Machine
import DataReel.Net.TlsConnection

/-! # The SMTP client

`gxsSMTPClient`: commands and replies over connection 0.
-/

namespace DataReel

open Program

/-- `gxsMailSecurity` -/
inductive MailSecurity where
  | implicitTls
  | startTls
  deriving DecidableEq, Repr

structure SmtpClient where
  conn : TlsConnection := {}
  clientName : Text := []
  extensions : List Text := []
  lastCode : Int := 0
  lastReply : Text := []
  error : Text := []
  deriving DecidableEq, Repr

namespace SmtpClient

variable (env : Environment NetAnswer)

def onConn {α : Type} (x : NetM TlsConnection α) : NetM SmtpClient α :=
  zoom SmtpClient.conn (fun t s => { s with conn := t }) x

def fail (msg : Text) : NetM SmtpClient Int := do
  update fun s => { s with error := msg }
  return -1

def connError (s : SmtpClient) : Text :=
  if s.conn.error.isEmpty then [] else ": ".toList ++ s.conn.error

/-- A line of a reply after those before it. -/
def addLine (line : Text) (s : SmtpClient) : SmtpClient :=
  { s with lastReply := (if s.lastReply.isEmpty then [] else s.lastReply ++ ['\n']) ++ line }

/-- The lines of a reply; every line but the last has a dash after its code. -/
def replyLines : Nat → NetM SmtpClient Int
  | 0 => fail "SMTP exception: Reply is too long".toList
  | n + 1 => do
    let line ← onConn (TlsConnection.readLine env 0 4096)
    match line with
    | none => do
      let s ← read
      fail ("SMTP exception: No reply from server".toList ++ connError s)
    | some line =>
      if line.length < 3 then
        fail ("SMTP exception: Bad reply: ".toList ++ line)
      else do
        update (addLine line)
        if (line)[3]? = some '-' then
          replyLines n
        else
          update fun s => { s with lastCode := Text.atoi (line.take 3) }
          return Text.atoi (line.take 3)

def readReply : NetM SmtpClient Int := do
  update fun s => { s with lastReply := [], lastCode := 0 }
  replyLines env 1000

def command (cmd expect : Text) : NetM SmtpClient Int := do
  if Text.hasBreak cmd then
    fail "SMTP exception: Command contains a line break".toList
  else
    let sent ← onConn (TlsConnection.sendLine env 0 cmd)
    if sent < 0 then
      let s ← read
      fail ("SMTP exception: ".toList ++ s.conn.error)
    else
      let code ← readReply env
      if code < 0 then
        return -1
      else
        let s ← read
        if Text.startsWith (Text.ofInt s.lastCode) expect then
          return 0
        else
          fail ("SMTP exception: ".toList ++ s.lastReply)

/-- The name of the client for `EHLO`. -/
def greetingName : NetM SmtpClient Text := do
  let s ← read
  if s.clientName.isEmpty then
    let host ← ask env .hostName
    return if host.isEmpty then "localhost".toList else host
  else
    return s.clientName

/-- The extensions that a reply to `EHLO` lists. -/
def listed (reply : Text) : List Text :=
  (((Text.split reply '\n' false).drop 1).filter fun line => 4 < line.length).map
    fun line => Text.upper (line.drop 4)

def ehlo : NetM SmtpClient Int := do
  let name ← greetingName env
  let rv ← command env ("EHLO ".toList ++ name) "250".toList
  if rv ≠ 0 then
    return -1
  else
    update fun s => { s with extensions := listed s.lastReply }
    return 0

def hasExtension (s : SmtpClient) (name : Text) : Bool :=
  s.extensions.any fun e => e = Text.upper name || Text.startsWith e (Text.upper name ++ [' '])

/-- `STARTTLS` and `EHLO` again over TLS. -/
def upgrade : NetM SmtpClient Int := do
  let rv ← command env "STARTTLS".toList "220".toList
  if rv ≠ 0 then
    return -1
  else
    let started ← onConn (TlsConnection.startTls env 0)
    if started ≠ 0 then
      let s ← read
      fail s.conn.error
    else
      let rv ← ehlo env
      return if rv ≠ 0 then -1 else 0

def connect (host : Text) (port : Int) (security : MailSecurity) : NetM SmtpClient Int := do
  update fun s => { s with error := [] }
  let connected ← onConn (TlsConnection.connect env 0 host port (security = .implicitTls))
  if connected ≠ 0 then
    let s ← read
    fail s.conn.error
  else
    let code ← readReply env
    let s ← read
    if code < 0 then
      return -1
    else if s.lastCode ≠ 220 then
      fail ("SMTP exception: ".toList ++ s.lastReply)
    else
      let rv ← ehlo env
      let s ← read
      if rv ≠ 0 then
        return -1
      else if security = .startTls then
        if !hasExtension s "STARTTLS".toList then
          onConn TlsConnection.close
          fail ("SMTP exception: ".toList ++ host ++ " does not offer STARTTLS".toList)
        else
          upgrade env
      else
        return 0

/-- The last `AUTH` extension, or nothing. -/
def authMethods (s : SmtpClient) : Text :=
  ((s.extensions.filter fun e => Text.startsWith e "AUTH ".toList).getLast?).getD []

def login (user passwd : Text) : NetM SmtpClient Int := do
  let s ← read
  let auth := authMethods s
  if auth.isEmpty || auth.tails.any (" PLAIN".toList).isPrefixOf then
    let creds := '\x00' :: user ++ '\x00' :: passwd
    command env ("AUTH PLAIN ".toList ++ Text.base64Encode creds) "235".toList
  else
    let rv ← command env "AUTH LOGIN".toList "334".toList
    if rv ≠ 0 then
      return -1
    else
      let rv ← command env (Text.base64Encode user) "334".toList
      if rv ≠ 0 then return -1 else command env (Text.base64Encode passwd) "235".toList

def angle (address : Text) : Text :=
  let a := Text.trim address
  if a.head? = some '<' then a
  else if a.contains '<' then a.dropWhile (· ≠ '<')
  else '<' :: a ++ ['>']

def mailFrom (address : Text) : NetM SmtpClient Int :=
  command env ("MAIL FROM:".toList ++ angle address) "250".toList

def rcptTo (address : Text) : NetM SmtpClient Int :=
  command env ("RCPT TO:".toList ++ angle address) "25".toList

/-- The body of a mail with its line ends as CR LF and a second dot before a dot that starts a
line. -/
def stuff : Bool → Text → Text
  | lineStart, [] => if lineStart then [] else Text.crlf
  | lineStart, c :: s =>
    (if lineStart && c = '.' then ['.'] else []) ++
      if c = '\r' && s.head? = some '\n' then stuff lineStart s
      else if c = '\r' || c = '\n' then Text.crlf ++ stuff true s
      else c :: stuff false s

def data (message : Text) : NetM SmtpClient Int := do
  let rv ← command env "DATA".toList "354".toList
  if rv ≠ 0 then
    return -1
  else
    let sent ← onConn (TlsConnection.send env 0 (stuff true message ++ ".\r\n".toList))
    if sent < 0 then
      let s ← read
      fail ("SMTP exception: ".toList ++ s.conn.error)
    else
      let code ← readReply env
      let s ← read
      if code < 0 then
        return -1
      else if s.lastCode ≠ 250 then
        fail ("SMTP exception: ".toList ++ s.lastReply)
      else
        return 0

def reset : NetM SmtpClient Int := command env "RSET".toList "250".toList

def quit : NetM SmtpClient Int := do
  let rv ← command env "QUIT".toList "221".toList
  onConn TlsConnection.close
  return rv

def close : NetM SmtpClient Unit := onConn TlsConnection.close

/-- The recipients of a mail, with the header line that names those accepted so far. -/
def recipients : List Text → Text → NetM SmtpClient (Option Text)
  | [], header => return some header
  | t :: ts, header => do
    if Text.hasBreak t then
      let _ ← fail "SMTP exception: Header contains a line break".toList
      return none
    else
      let rv ← rcptTo env t
      if rv ≠ 0 then
        return none
      else
        recipients ts ((if header.isEmpty then [] else header ++ ", ".toList) ++ t)

/-- What follows the last `@` of an address, up to a `>`. -/
def domainOf (address : Text) : Text :=
  if address.contains '@' then
    ((address.reverse.takeWhile (· ≠ '@')).reverse).takeWhile (· ≠ '>')
  else
    "localhost".toList

def headers (time number sender header subject : Text) : Text :=
  "Date: ".toList ++ time ++ Text.crlf ++
  "From: ".toList ++ sender ++ Text.crlf ++
  "To: ".toList ++ header ++ Text.crlf ++
  "Subject: ".toList ++ subject ++ Text.crlf ++
  "Message-ID: <".toList ++ number ++ "@".toList ++ domainOf sender ++ ">\r\n".toList ++
  "MIME-Version: 1.0\r\n".toList ++
  "Content-Type: text/plain; charset=utf-8\r\n".toList ++
  "Content-Transfer-Encoding: 8bit\r\n".toList ++ Text.crlf

def sendMessage (sender : Text) (addressees : List Text) (subject body : Text) : NetM SmtpClient Int := do
  if addressees.isEmpty then
    fail "SMTP exception: No recipients".toList
  else if Text.hasBreak sender || Text.hasBreak subject then
    fail "SMTP exception: Header contains a line break".toList
  else
    let rv ← mailFrom env sender
    if rv ≠ 0 then
      return -1
    else
      let header ← recipients env addressees []
      match header with
      | none => return -1
      | some header => do
        let time ← ask env .smtpTime
        let number ← ask env .messageNumber
        data env (headers time number sender header subject ++ body)

/-- The public calls, with the settings that the modelled members hold. -/
inductive Call where
  | setVerifyPeer (on : Bool)
  | setClientName (name : Text)
  | connect (host : Text) (port : Int) (security : MailSecurity)
  | login (user passwd : Text)
  | mailFrom (address : Text)
  | rcptTo (address : Text)
  | data (message : Text)
  | reset
  | quit
  | close
  | sendMessage (sender : Text) (addressees : List Text) (subject body : Text)
  | command (cmd expect : Text)
  deriving DecidableEq, Repr

def exec : Call → NetM SmtpClient Unit
  | .setVerifyPeer on => onConn (update fun t => { t with verifyPeer := on })
  | .setClientName name => update fun s => { s with clientName := name }
  | .connect host port security => do let _ ← connect env host port security
  | .login user passwd => do let _ ← login env user passwd
  | .mailFrom address => do let _ ← mailFrom env address
  | .rcptTo address => do let _ ← rcptTo env address
  | .data message => do let _ ← data env message
  | .reset => do let _ ← reset env
  | .quit => do let _ ← quit env
  | .close => close
  | .sendMessage sender addressees subject body => do
    let _ ← sendMessage env sender addressees subject body
  | .command cmd expect => do let _ ← command env cmd expect

def machine : Machine Call Unit (Dialogue NetAnswer SmtpClient) where
  step c s := ((), last (exec env c s))

def start : Dialogue NetAnswer SmtpClient where
  state := {}
  trace := []

end SmtpClient

end DataReel
