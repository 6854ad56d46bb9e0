import DataReel.Library.Dialogue
import DataReel.Net.Text

/-! # TLS connections

`gxsTLSConnection`: a socket that is plain until a TLS handshake, and what has
been received of its stream. The network, OpenSSL and the local files are the
environment.
-/

namespace DataReel

/-- How a TLS handshake ends. Only one that offered a session can resume it. -/
inductive Handshake where
  | failed
  | full
  | resumed
  deriving DecidableEq, Repr

/-- What a read from a socket returns. -/
inductive Received where
  | data (c : Char) (s : Text)
  | closed
  | failed
  deriving DecidableEq, Repr

/-- The requests to the system and to OpenSSL, by the number of the connection. -/
inductive NetRequest where
  | connect (c : Nat) (host : Text) (port : Int)
  | exceptionMessage (c : Nat)
  | initCtx (c : Nat)
  | openSsl (c : Nat)
  | handshake (c : Nat) (host : Text) (offered : Bool)
  | verifyCert (c : Nat) (host : Text)
  | send (c : Nat) (secure : Bool) (bytes : Text)
  | fill (c : Nat) (secure : Bool)
  | peerAddress (c : Nat)
  | hostName
  | smtpTime
  | messageNumber
  | createLocal (fname : Text)
  | openLocal (fname : Text)
  | writeLocal (bytes : Text)
  | readLocal
  deriving DecidableEq, Repr

abbrev NetAnswer : NetRequest → Type
  | .connect .. | .initCtx _ | .openSsl _ | .verifyCert .. | .send .. => Bool
  | .createLocal _ | .openLocal _ | .writeLocal _ => Bool
  | .exceptionMessage _ | .peerAddress _ | .hostName | .smtpTime | .messageNumber => Text
  | .handshake .. => Handshake
  | .fill .. | .readLocal => Received

/-- A loop that the peer or a file keeps going was cut off. -/
inductive Unfinished where
  | unfinished

abbrev NetM (σ : Type) := Program NetAnswer Unfinished σ

/-- The session of an SSL object: the host for which its certificate was accepted, and
whether it was taken over from another connection. -/
structure TlsSession where
  accepted : Option Text
  resumed : Bool
  deriving DecidableEq, Repr

/-- The members of a `gxsTLSConnection`; `ssl` is set once its handshake has ended. -/
structure TlsConnection where
  isOpen : Bool := false
  secure : Bool := false
  verifyPeer : Bool := true
  hostName : Text := []
  rbuf : Text := []
  error : Text := []
  ssl : Option TlsSession := none
  deriving DecidableEq, Repr

namespace TlsConnection

open Program

variable (env : Environment NetAnswer) (c : Nat)

def fail (msg : Text) : NetM TlsConnection Int := do
  update fun t => { t with error := msg }
  return -1

/-- An error with the text of the system or of OpenSSL. -/
def failMessage : NetM TlsConnection Int := do
  let msg ← ask env (.exceptionMessage c)
  fail msg

def close : NetM TlsConnection Unit :=
  update fun t => { t with secure := false, ssl := none, isOpen := false, rbuf := [] }

/-- `tls_handshake(false)` -/
def tlsHandshake : NetM TlsConnection Int := do
  let opened ← ask env (.openSsl c)
  if opened then
    let t ← read
    let outcome ← ask env (.handshake c t.hostName false)
    if outcome = .failed then
      update fun t => { t with ssl := none }
      failMessage env c
    else
      update fun t => { t with ssl := some { accepted := none, resumed := false } }
      if t.verifyPeer then
        let valid ← ask env (.verifyCert c t.hostName)
        if valid then
          update fun t =>
            { t with ssl := some { accepted := some t.hostName, resumed := false }, secure := true }
          return 0
        else
          update fun t => { t with ssl := none }
          failMessage env c
      else
        update fun t => { t with secure := true }
        return 0
  else
    failMessage env c

def startTls : NetM TlsConnection Int := do
  let t ← read
  if !t.isOpen then
    fail "TLS exception: The connection is not open".toList
  else if t.secure then
    return 0
  else
    update fun t => { t with rbuf := [] }
    let ready ← ask env (.initCtx c)
    if ready then tlsHandshake env c else failMessage env c

def connect (host : Text) (port : Int) (implicitTls : Bool) : NetM TlsConnection Int := do
  close
  update fun t => { t with error := [], hostName := host }
  let connected ← ask env (.connect c host port)
  if connected then
    update fun t => { t with isOpen := true }
    if implicitTls then startTls env c else return 0
  else
    let msg ← ask env (.exceptionMessage c)
    fail (msg ++ ": ".toList ++ host ++ " port ".toList ++ Text.ofInt port)

/-- `sessionFrom` gives the other connection by what this one is after it was closed: it may
be the same object. -/
def attachClient (sockOpen : Bool) (host : Text)
    (sessionFrom : TlsConnection → Option TlsConnection) : NetM TlsConnection Int := do
  close
  update fun t => { t with error := [], isOpen := sockOpen, hostName := host }
  let t ← read
  match (sessionFrom t).filter TlsConnection.secure with
  | none => startTls env c
  | some other =>
    let opened ← ask env (.openSsl c)
    if opened then
      let outcome ← ask env (.handshake c host true)
      match outcome with
      | .failed =>
        update fun t => { t with ssl := none }
        failMessage env c
      | .full =>
        update fun t => { t with ssl := some { accepted := none, resumed := false }, secure := true }
        return 0
      | .resumed =>
        update fun t =>
          { t with ssl := other.ssl.map fun s => { s with resumed := true }, secure := true }
        return 0
    else
      failMessage env c

def send (bytes : Text) : NetM TlsConnection Int := do
  let t ← read
  if !t.isOpen then
    fail "TLS exception: The connection is not open".toList
  else
    let sent ← ask env (.send c t.secure bytes)
    if sent then return bytes.length else failMessage env c

def sendLine (s : Text) : NetM TlsConnection Int := send env c (s ++ Text.crlf)

def fill : NetM TlsConnection Int := do
  let t ← read
  let received ← ask env (.fill c t.secure)
  match received with
  | .data ch s =>
    update fun t => { t with rbuf := t.rbuf ++ ch :: s }
    return s.length + 1
  | .closed => return 0
  | .failed => failMessage env c

/-- A read when nothing is buffered, as `ReadSome` makes it. -/
def fillEmpty : NetM TlsConnection Int := do
  let t ← read
  if t.rbuf.isEmpty then fill env c else return 1

/-- `ReadSome` with its return value. -/
def readSome (bytes : Nat) : NetM TlsConnection (Int × Text) := do
  if bytes = 0 then
    return (0, [])
  else
    let rv ← fillEmpty env c
    if rv ≤ 0 then
      return (rv, [])
    else
      let t ← read
      update fun t => { t with rbuf := t.rbuf.drop bytes }
      return ((t.rbuf.take bytes).length, t.rbuf.take bytes)

/-- The loop of `Read`: every turn but the last receives something. -/
def readLoop (bytes : Nat) : Nat → NetM TlsConnection Unit
  | 0 => return
  | n + 1 => do
    let t ← read
    if t.rbuf.length < bytes then
      let rv ← fill env c
      if rv ≤ 0 then return else readLoop bytes n
    else
      return

/-- `Read` gives what it could read of the bytes. -/
def readBytes (bytes : Nat) : NetM TlsConnection Text := do
  readLoop env c bytes bytes
  let t ← read
  update fun t => { t with rbuf := t.rbuf.drop bytes }
  return t.rbuf.take bytes

/-- The loop of `ReadLine`: every turn but the last receives something. -/
def readLineLoop (maxLen : Nat) : Nat → NetM TlsConnection Bool
  | 0 => return false
  | n + 1 => do
    let t ← read
    if t.rbuf.contains '\n' then
      return true
    else if maxLen < t.rbuf.length then
      let _ ← fail "TLS exception: Line is too long".toList
      return false
    else
      let rv ← fill env c
      if rv ≤ 0 then return false else readLineLoop maxLen n

/-- A line without its line break. -/
def stripReturn (line : Text) : Text :=
  if line.getLast? = some '\r' then line.dropLast else line

def readLine (maxLen : Nat) : NetM TlsConnection (Option Text) := do
  let found ← readLineLoop env c maxLen (maxLen + 2)
  if found then
    let t ← read
    let pos := t.rbuf.idxOf '\n'
    if maxLen < pos then
      let _ ← fail "TLS exception: Line is too long".toList
      return none
    else
      update fun t => { t with rbuf := t.rbuf.drop (pos + 1) }
      return some (stripReturn (t.rbuf.take pos))
  else
    return none

/-- `ReadAll`, which ends when the peer closes the connection. -/
def readAll (maxLen : Option Nat) : Nat → NetM TlsConnection (Option Text)
  | 0 => throw .unfinished
  | n + 1 => do
    let t ← read
    if maxLen.any (· < t.rbuf.length) then
      let _ ← fail "TLS exception: Response is too large".toList
      return none
    else
      let rv ← fill env c
      if rv = 0 then
        let t ← read
        update fun t => { t with rbuf := [] }
        return some t.rbuf
      else if rv < 0 then
        return none
      else
        readAll maxLen n

end TlsConnection

end DataReel
