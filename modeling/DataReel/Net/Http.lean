import DataReel.Net.TlsConnection

/-! # HTTP messages

`gxsHTTPMessage` with its writers and readers over a connection. A message that
was not read is `none`; what a failed read leaves of it is not kept.
-/

namespace DataReel

open Program

namespace Text

/-- The value of a digit, or 16. -/
def digitValue (c : Char) : Nat :=
  if '0' ≤ c ∧ c ≤ '9' then c.toNat - '0'.toNat
  else if 'a' ≤ c ∧ c ≤ 'f' then c.toNat - 'a'.toNat + 10
  else if 'A' ≤ c ∧ c ≤ 'F' then c.toNat - 'A'.toNat + 10
  else 16

/-- The value of the digits of a text that come first. -/
def digitsValue (base : Nat) (s : Text) : Nat :=
  (s.takeWhile fun c => digitValue c < base).foldl (fun n c => base * n + digitValue c) 0

/-- A hexadecimal number without its `0x`. -/
def dropHexPrefix (base : Nat) : Text → Text
  | '0' :: x :: d :: s =>
    if base = 16 ∧ (x = 'x' ∨ x = 'X') ∧ digitValue d < 16 then d :: s else '0' :: x :: d :: s
  | s => s

/-- The sign of a number, and the number. -/
def sign : Text → Bool × Text
  | '-' :: s => (true, s)
  | '+' :: s => (false, s)
  | s => (false, s)

/-- `std::strtoull` with the rest of the text that it points to. -/
def strtoull (base : Nat) (s : Text) : Nat × Text :=
  let signed := sign (trimLeft s)
  let digits := dropHexPrefix base signed.2
  if (digits.takeWhile fun c => digitValue c < base).isEmpty then
    (0, s)
  else
    let n := digitsValue base digits
    let rest := digits.dropWhile fun c => digitValue c < base
    if 2 ^ 64 ≤ n then (2 ^ 64 - 1, rest)
    else if signed.1 then ((2 ^ 64 - n) % 2 ^ 64, rest)
    else (n, rest)

/-- The number that a string is as far as C reads it, or nothing. -/
def wholeNumber (base : Nat) (s : Text) : Option Nat :=
  let result := strtoull base (s.takeWhile (· ≠ '\x00'))
  if result.2.isEmpty then some result.1 else none

end Text

/-- `gxsHTTPMessage` -/
structure HttpMessage where
  method : Text := []
  target : Text := []
  version : Text := "HTTP/1.1".toList
  status : Int := 0
  reason : Text := []
  headers : List (Text × Text) := []
  body : Text := []
  deriving DecidableEq, Repr

namespace HttpMessage

def header (msg : HttpMessage) (name : Text) : Text :=
  ((msg.headers.find? fun h => Text.iequals h.1 name).map Prod.snd).getD []

def hasHeader (msg : HttpMessage) (name : Text) : Bool :=
  msg.headers.any fun h => Text.iequals h.1 name

def removeHeader (msg : HttpMessage) (name : Text) : HttpMessage :=
  { msg with headers := msg.headers.filter fun h => !Text.iequals h.1 name }

def addHeader (msg : HttpMessage) (name value : Text) : HttpMessage :=
  { msg with headers := msg.headers ++ [(name, value)] }

def setHeader (msg : HttpMessage) (name value : Text) : HttpMessage :=
  (msg.removeHeader name).addHeader name value

section Write

/-- `gxsHTTPStatusCodeMessage` -/
def statusCodeMessage : Int → Text
  | 100 => "Continue".toList
  | 101 => "Switching Protocols".toList
  | 200 => "OK".toList
  | 201 => "Created".toList
  | 202 => "Accepted".toList
  | 204 => "No Content".toList
  | 206 => "Partial Content".toList
  | 301 => "Moved Permanently".toList
  | 302 => "Found".toList
  | 303 => "See Other".toList
  | 304 => "Not Modified".toList
  | 307 => "Temporary Redirect".toList
  | 308 => "Permanent Redirect".toList
  | 400 => "Bad Request".toList
  | 401 => "Unauthorized".toList
  | 403 => "Forbidden".toList
  | 404 => "Not Found".toList
  | 405 => "Method Not Allowed".toList
  | 408 => "Request Timeout".toList
  | 409 => "Conflict".toList
  | 411 => "Length Required".toList
  | 413 => "Content Too Large".toList
  | 414 => "URI Too Long".toList
  | 415 => "Unsupported Media Type".toList
  | 429 => "Too Many Requests".toList
  | 500 => "Internal Server Error".toList
  | 501 => "Not Implemented".toList
  | 502 => "Bad Gateway".toList
  | 503 => "Service Unavailable".toList
  | 504 => "Gateway Timeout".toList
  | 505 => "HTTP Version Not Supported".toList
  | _ => "Unknown".toList

/-- The message with the length of its body among its headers. -/
def withLength (msg : HttpMessage) : HttpMessage :=
  if !msg.hasHeader "Transfer-Encoding".toList &&
      !(msg.body.isEmpty && msg.hasHeader "Content-Length".toList) then
    msg.setHeader "Content-Length".toList (Text.ofInt msg.body.length)
  else
    msg

def headerLine (h : Text × Text) : Text := h.1 ++ ": ".toList ++ h.2

def wire (startLine : Text) (msg : HttpMessage) : Text :=
  startLine ++ Text.crlf ++ (msg.headers.flatMap fun h => headerLine h ++ Text.crlf) ++
    Text.crlf ++ msg.body

def requestLine (msg : HttpMessage) : Text :=
  msg.method ++ " ".toList ++ (if msg.target.isEmpty then "/".toList else msg.target) ++
    " ".toList ++ msg.version

def reasonOf (msg : HttpMessage) : Text :=
  if msg.reason.isEmpty then statusCodeMessage msg.status else msg.reason

def statusLine (msg : HttpMessage) : Text :=
  msg.version ++ " ".toList ++ Text.ofInt msg.status ++ " ".toList ++ msg.reasonOf

variable (env : Environment NetAnswer) (c : Nat)

/-- The message is passed back as the writer leaves it. -/
def writeMessage (msg : HttpMessage) (startLine : Text) : NetM TlsConnection (Int × HttpMessage) := do
  if msg.withLength.headers.any fun h => Text.hasBreak h.1 || Text.hasBreak h.2 then
    return (-1, msg.withLength)
  else
    let sent ← TlsConnection.send env c (wire startLine msg.withLength)
    return (if sent < 0 then -1 else 0, msg.withLength)

def writeRequest (msg : HttpMessage) : NetM TlsConnection (Int × HttpMessage) :=
  if Text.hasBreak msg.method || Text.hasBreak msg.target then
    return (-1, msg)
  else
    writeMessage env c msg msg.requestLine

def writeResponse (msg : HttpMessage) : NetM TlsConnection (Int × HttpMessage) :=
  if Text.hasBreak msg.reasonOf then
    return (-1, msg)
  else
    writeMessage env c msg msg.statusLine

end Write

section Read

variable (env : Environment NetAnswer) (c : Nat)

/-- A header that goes on in a folded line. -/
def fold (headers : List (Text × Text)) (line : Text) : Option (List (Text × Text)) :=
  headers.getLast?.map fun h => headers.dropLast ++ [(h.1, h.2 ++ ' ' :: Text.trim line)]

/-- The headers with that of one more line. -/
def addLine (headers : List (Text × Text)) (line : Text) : Option (List (Text × Text)) :=
  if line.head? = some ' ' ∨ line.head? = some '\t' then
    fold headers line
  else if line.contains ':' ∧ line.head? ≠ some ':' then
    some (headers ++ [(Text.trim (line.takeWhile (· ≠ ':')),
      Text.trim ((line.dropWhile (· ≠ ':')).drop 1))])
  else
    none

/-- The header lines after `total` bytes of them. Every turn but the last adds to `total`, which
is at most 262144. -/
def readHeaders (headers : List (Text × Text)) (total : Nat) :
    Nat → NetM TlsConnection (Option (List (Text × Text)))
  | 0 => return none
  | n + 1 => do
    let line ← TlsConnection.readLine env c 16384
    match line with
    | none => return none
    | some line =>
      if line.isEmpty then
        return some headers
      else if 256 * 1024 < total + line.length ∨ 200 < headers.length then
        return none
      else
        match addLine headers line with
        | none => return none
        | some headers => readHeaders headers (total + line.length) n

/-- Two sizes are the same when they are cast to `int`. -/
def sameInt (a b : Nat) : Bool := a % 2 ^ 32 = b % 2 ^ 32

/-- The size in the line before a chunk, without extensions. -/
def chunkSize (line : Text) : Option Nat :=
  let size := Text.trim (line.takeWhile (· ≠ ';'))
  if size.isEmpty then none else Text.wholeNumber 16 size

/-- The chunks of a body after `body`. -/
def readChunks (maxBody : Nat) (body : Text) : Nat → NetM TlsConnection (Option Text)
  | 0 => throw .unfinished
  | n + 1 => do
    let line ← TlsConnection.readLine env c 1024
    match line with
    | none => return none
    | some line =>
      match chunkSize line with
      | none => return none
      | some k =>
        if k = 0 then
          return some body
        else if maxBody < k ∨ maxBody < (body.length + k) % 2 ^ 64 then
          return none
        else do
          let chunk ← TlsConnection.readBytes env c k
          if !sameInt chunk.length k then
            return none
          else
            let line ← TlsConnection.readLine env c 2
            if line = some [] then readChunks maxBody (body ++ chunk) n else return none

/-- The trailer lines of a chunked body. -/
def readTrailers : Nat → NetM TlsConnection Bool
  | 0 => throw .unfinished
  | n + 1 => do
    let line ← TlsConnection.readLine env c 16384
    match line with
    | none => return false
    | some line => if line.isEmpty then return true else readTrailers n

def readChunked (maxBody turns : Nat) : NetM TlsConnection (Option Text) := do
  let body ← readChunks env c maxBody [] turns
  match body with
  | none => return none
  | some body => do
    let ended ← readTrailers env c turns
    return if ended then some body else none

/-- A body of a length that a header gives. -/
def readSized (maxBody : Nat) (len : Text) : NetM TlsConnection (Option Text) :=
  match Text.wholeNumber 10 len with
  | none => return none
  | some n =>
    if maxBody < n then
      return none
    else do
      let body ← TlsConnection.readBytes env c n
      return if sameInt body.length n then some body else none

def readBody (msg : HttpMessage) (maxBody : Nat) (readToClose : Bool) (turns : Nat) :
    NetM TlsConnection (Option Text) :=
  if Text.iinfix "chunked".toList (msg.header "Transfer-Encoding".toList) then
    readChunked env c maxBody turns
  else if !(msg.header "Content-Length".toList).isEmpty then
    readSized env c maxBody (msg.header "Content-Length".toList)
  else if readToClose then
    TlsConnection.readAll env c (some maxBody) turns
  else
    return some []

/-- The headers and the body of a message. -/
def readRest (msg : HttpMessage) (maxBody : Nat) (readToClose : Bool) (turns : Nat) :
    NetM TlsConnection (Option HttpMessage) := do
  let body ← readBody env c msg maxBody readToClose turns
  return body.map fun body => { msg with body }

def readStart : Nat → NetM TlsConnection (Option Text)
  | 0 => throw .unfinished
  | n + 1 => do
    let line ← TlsConnection.readLine env c 16384
    match line with
    | none => return none
    | some line => if line.isEmpty then readStart n else return some line

def parseRequestLine (line : Text) : Option HttpMessage :=
  match Text.split line ' ' true with
  | [method, target, version] =>
    if Text.startsWith version "HTTP/".toList then some { method, target, version } else none
  | _ => none

/-- `gxsHTTPReadRequest` with a bound for the loops that the peer keeps going. -/
def readRequest (maxBody turns : Nat) : NetM TlsConnection (Option HttpMessage) := do
  let line ← readStart env c turns
  match line.bind parseRequestLine with
  | none => return none
  | some msg => do
    let headers ← readHeaders env c [] 0 262146
    match headers with
    | none => return none
    | some headers => readRest env c { msg with headers } maxBody false turns

def parseStatusLine (line : Text) : Option HttpMessage :=
  if Text.startsWith line "HTTP/".toList ∧ line.contains ' ' then
    let rest := (line.dropWhile (· ≠ ' ')).drop 1
    let status := Text.atoi rest
    if status < 100 ∨ 999 < status then none
    else some
      { version := line.takeWhile (· ≠ ' ')
        status
        reason := (rest.dropWhile (· ≠ ' ')).drop 1 }
  else
    none

/-- `gxsHTTPReadResponse` with a bound for the loops that the peer keeps going. -/
def readResponse (headRequest : Bool) (maxBody turns : Nat) :
    Nat → NetM TlsConnection (Option HttpMessage)
  | 0 => throw .unfinished
  | n + 1 => do
    let line ← TlsConnection.readLine env c 16384
    match line.bind parseStatusLine with
    | none => return none
    | some msg => do
      let headers ← readHeaders env c [] 0 262146
      match headers with
      | none => return none
      | some headers =>
        if msg.status < 200 then
          readResponse headRequest maxBody turns n
        else if headRequest ∨ msg.status = 204 ∨ msg.status = 304 then
          return some { msg with headers }
        else
          readRest env c { msg with headers } maxBody true turns

end Read

end HttpMessage

end DataReel
