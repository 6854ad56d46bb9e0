import Mathlib.Data.List.Chain
import DataReel.Net.HttpRoundTrip
import DataReel.Net.Reading
import DataReel.Net.UrlResolve

/-! # The HTTPS client

`gxsHTTPClient` makes a connection for each request and follows redirects. What it asks of the network in one call
is compared with the chain of URLs that the redirects give.
-/

namespace DataReel

open Program

/-- The members of a `gxsHTTPClient`, and the connection of the request that is made. -/
structure HttpClient where
  verifyPeer : Bool := true
  maxRedirects : Int := 5
  maxBody : Nat := 1024 * 1024 * 1024
  userAgent : Text := "DataReel/7".toList
  authUser : Text := []
  authPasswd : Text := []
  authHost : Text := []
  extraHeaders : List (Text × Text) := []
  error : Text := []
  finalUrl : Text := []
  conn : TlsConnection := {}

namespace HttpClient

/-- The user and the password of a request, those of the URL before those of `SetBasicAuth`. -/
def credentials (s : HttpClient) (u : URLInfo) : Text × Text :=
  if u.user.isEmpty then (s.authUser, s.authPasswd) else (u.user, u.passwd)

/-- The request that `send_one` writes. -/
def requestTo (s : HttpClient) (method : Text) (u : URLInfo) (body contentType : Text) : HttpMessage :=
  let req : HttpMessage := { method, target := u.pathAndQuery }
  let req := req.setHeader "Host".toList u.hostAndPort
  let req := req.setHeader "User-Agent".toList s.userAgent
  let req := req.setHeader "Accept".toList "*/*".toList
  let req := req.setHeader "Connection".toList "close".toList
  -- credentials are not sent to another host after a redirect
  let user := if !s.authHost.isEmpty && u.host ≠ s.authHost then [] else (s.credentials u).1
  let req := if user.isEmpty then req
    else req.setHeader "Authorization".toList (Text.basicAuthenticationEncode user (s.credentials u).2)
  let req := s.extraHeaders.foldl (fun req h => req.setHeader h.1 h.2) req
  if !body.isEmpty || method = "POST".toList || method = "PUT".toList then
    { (if contentType.isEmpty then req else req.setHeader "Content-Type".toList contentType) with body }
  else
    req

variable (env : Environment NetAnswer)

def fail (msg : Text) : NetM HttpClient (Option HttpMessage) := do
  update fun s => { s with error := msg }
  return none

def onConnection {α : Type} (x : NetM TlsConnection α) : NetM HttpClient α :=
  zoom HttpClient.conn (fun t s => { s with conn := t }) x

/-- `send_one` over connection `c`, with a bound for the loops that the peer keeps going. -/
def sendOne (c turns : Nat) (method : Text) (u : URLInfo) (body contentType : Text) :
    NetM HttpClient (Option HttpMessage) := do
  update fun s => { s with conn := { verifyPeer := s.verifyPeer } }
  let connected ← onConnection (TlsConnection.connect env c u.host u.port true)
  let s ← read
  if connected ≠ 0 then
    fail s.conn.error
  else
    let written ← onConnection (HttpMessage.writeRequest env c (s.requestTo method u body contentType))
    if written.1 ≠ 0 then
      let s ← read
      fail (if s.conn.error.isEmpty then "HTTP exception: Bad request header".toList else s.conn.error)
    else
      let response ← onConnection
        (HttpMessage.readResponse env c (method = "HEAD".toList) s.maxBody turns turns)
      match response with
      | some response => return some response
      | none =>
        let s ← read
        fail ("HTTP exception: Bad or incomplete response from ".toList ++ u.host ++
          if s.conn.error.isEmpty then [] else ": ".toList ++ s.conn.error)

/-- A request that a caller or a redirect asks for. -/
structure Hop where
  url : Text
  method : Text
  body : Text

def isRedirect (status : Int) : Bool :=
  status = 301 || status = 302 || status = 303 || status = 307 || status = 308

/-- The request that a response to `h`, whose URL is `u`, redirects to. -/
def Hop.next (h : Hop) (u : URLInfo) (response : HttpMessage) : Hop :=
  let s := response.status
  let toGet := s = 303 ∨ ((s = 301 ∨ s = 302) ∧ h.method = "POST".toList)
  { url := URL.resolve u (response.header "Location".toList)
    method := if toGet then "GET".toList else h.method
    body := if toGet then [] else h.body }

/-- The loop of `Request` after `redirects` of its turns; connections are numbered by the turns. -/
def requestLoop (c turns : Nat) (contentType : Text) (redirects : Nat) (h : Hop) :
    Nat → NetM HttpClient (Option HttpMessage)
  | 0 => throw .unfinished
  | n + 1 =>
    match URL.parse h.url with
    | none => fail ("HTTP exception: Bad URL ".toList ++ h.url)
    | some u =>
      if u.scheme ≠ "https".toList then
        fail ("HTTP exception: Only https:// URLs are supported: ".toList ++ h.url)
      else do
        update fun s =>
          { s with finalUrl := h.url, authHost := if s.authHost.isEmpty then u.host else s.authHost }
        let response ← sendOne env (c + redirects) turns h.method u h.body contentType
        let s ← read
        match response with
        | none => return none
        | some response =>
          if !isRedirect response.status || (response.header "Location".toList).isEmpty || s.maxRedirects ≤ 0 then
            return some response
          else if s.maxRedirects ≤ redirects then
            fail "HTTP exception: Too many redirects".toList
          else
            requestLoop c turns contentType (redirects + 1) (h.next u response) n

/-- `Request`, with the number of its first connection. -/
def request (c turns : Nat) (method url body contentType : Text) : NetM HttpClient (Option HttpMessage) := do
  update fun s => { s with error := [], authHost := [] }
  let s ← read
  requestLoop env c turns contentType 0 ⟨url, method, body⟩ (s.maxRedirects.toNat + 1)

/-! ## What a request tells -/

section Asks

variable {s : HttpClient} {u : URLInfo} {h : Hop} {contentType : Text}

def named (name : Text) (headers : List (Text × Text)) : Bool := headers.any fun h => Text.iequals h.1 name

/-- The message asks for a hop whose URL is `u`. Its credentials come from `AddHeader`, or it is for the host of the
first request and they are those of its own URL or of `SetBasicAuth`. -/
structure Asks (s : HttpClient) (h : Hop) (u : URLInfo) (m : HttpMessage) : Prop where
  method : m.method = h.method
  target : m.target = u.pathAndQuery
  body : m.body = h.body
  host : named "Host".toList s.extraHeaders = false → m.header "Host".toList = u.hostAndPort
  authorization : m.hasHeader "Authorization".toList = true ↔ named "Authorization".toList s.extraHeaders = true ∨
    (s.authHost = [] ∨ u.host = s.authHost) ∧ (s.credentials u).1 ≠ []
  credentials : named "Authorization".toList s.extraHeaders = false → m.hasHeader "Authorization".toList = true →
    m.header "Authorization".toList = Text.basicAuthenticationEncode (s.credentials u).1 (s.credentials u).2

variable {hs : List (Text × Text)} {req : HttpMessage} {name : Text}

theorem extra_fields : (hs.foldl (fun req h => req.setHeader h.1 h.2) req).method = req.method ∧
    (hs.foldl (fun req h => req.setHeader h.1 h.2) req).target = req.target ∧
    (hs.foldl (fun req h => req.setHeader h.1 h.2) req).body = req.body := by
  induction hs generalizing req with
  | nil => exact ⟨rfl, rfl, rfl⟩
  | cons h hs ih => exact @ih (req.setHeader h.1 h.2)

theorem hasHeader_extra : (hs.foldl (fun req h => req.setHeader h.1 h.2) req).hasHeader name =
    (named name hs || req.hasHeader name) := by
  induction hs generalizing req with
  | nil => rfl
  | cons h hs ih =>
    rw [List.foldl_cons, ih, HttpMessage.hasHeader_setHeader, named, named, List.any_cons, Bool.or_left_comm,
      Bool.or_assoc]

theorem header_extra (h : named name hs = false) :
    (hs.foldl (fun req h => req.setHeader h.1 h.2) req).header name = req.header name := by
  induction hs generalizing req with
  | nil => rfl
  | cons g hs ih =>
    obtain ⟨hFirst, hRest⟩ : Text.iequals g.1 name = false ∧ named name hs = false := by
      simpa [named] using h
    rw [List.foldl_cons, ih hRest, HttpMessage.header_setHeader_ne hFirst]

theorem requestTo_asks (s : HttpClient) (h : Hop) (u : URLInfo) (contentType : Text) :
    Asks s h u (s.requestTo h.method u h.body contentType) := by
  have hHostAgent : Text.iequals "User-Agent".toList "Host".toList = false := by decide +kernel
  have hHostAccept : Text.iequals "Accept".toList "Host".toList = false := by decide +kernel
  have hHostConnection : Text.iequals "Connection".toList "Host".toList = false := by decide +kernel
  have hHostType : Text.iequals "Content-Type".toList "Host".toList = false := by decide +kernel
  have hHostAuth : Text.iequals "Authorization".toList "Host".toList = false := by decide +kernel
  have hHost : Text.iequals "Host".toList "Host".toList = true := by decide +kernel
  have hAuth : Text.iequals "Authorization".toList "Authorization".toList = true := by decide +kernel
  have hAuthHost : Text.iequals "Host".toList "Authorization".toList = false := by decide +kernel
  have hAuthAgent : Text.iequals "User-Agent".toList "Authorization".toList = false := by decide +kernel
  have hAuthAccept : Text.iequals "Accept".toList "Authorization".toList = false := by decide +kernel
  have hAuthConnection : Text.iequals "Connection".toList "Authorization".toList = false := by decide +kernel
  have hAuthType : Text.iequals "Content-Type".toList "Authorization".toList = false := by decide +kernel
  unfold requestTo
  dsimp only
  generalize hPlain : ((((({ method := h.method, target := u.pathAndQuery } : HttpMessage).setHeader "Host".toList
    u.hostAndPort).setHeader "User-Agent".toList s.userAgent).setHeader "Accept".toList "*/*".toList).setHeader
    "Connection".toList "close".toList) = plain
  have hFields : plain.method = h.method ∧ plain.target = u.pathAndQuery ∧ plain.body = [] := by
    rw [← hPlain]
    exact ⟨rfl, rfl, rfl⟩
  have hPlainHost : plain.header "Host".toList = u.hostAndPort := by
    rw [← hPlain, HttpMessage.header_setHeader_ne hHostConnection, HttpMessage.header_setHeader_ne hHostAccept,
      HttpMessage.header_setHeader_ne hHostAgent, HttpMessage.header_setHeader hHost]
  have hPlainAuth : plain.hasHeader "Authorization".toList = false := by
    rw [← hPlain, HttpMessage.hasHeader_setHeader, HttpMessage.hasHeader_setHeader, HttpMessage.hasHeader_setHeader,
      HttpMessage.hasHeader_setHeader, hAuthConnection, hAuthAccept, hAuthAgent, hAuthHost]
    rfl
  clear hPlain
  generalize hUser : (if (!s.authHost.isEmpty && u.host ≠ s.authHost) = true then [] else (s.credentials u).1) = user
  have hUserIff : user ≠ [] ↔ (s.authHost = [] ∨ u.host = s.authHost) ∧ (s.credentials u).1 ≠ [] := by
    rw [← hUser]
    by_cases hNone : s.authHost = [] <;> by_cases hSame : u.host = s.authHost <;> simp [hNone, hSame]
  have hUserEq : user ≠ [] → user = (s.credentials u).1 := by
    intro hNe
    rw [← hUser] at hNe ⊢
    split at hNe
    · exact absurd rfl hNe
    · next hNot => exact if_neg hNot
  clear hUser
  generalize hCarried : (if user.isEmpty = true then plain else plain.setHeader "Authorization".toList
    (Text.basicAuthenticationEncode user (s.credentials u).2)) = carried
  have hCarriedFields : carried.method = h.method ∧ carried.target = u.pathAndQuery ∧ carried.body = [] := by
    rw [← hCarried]
    split <;> exact hFields
  have hCarriedHost : carried.header "Host".toList = u.hostAndPort := by
    rw [← hCarried]
    split
    · exact hPlainHost
    · rw [HttpMessage.header_setHeader_ne hHostAuth, hPlainHost]
  have hCarriedAuth : carried.hasHeader "Authorization".toList = true ↔ user ≠ [] := by
    rw [← hCarried]
    split
    · next hNil =>
      rw [hPlainAuth, List.isEmpty_iff.mp hNil]
      simp
    · next hNe =>
      rw [HttpMessage.hasHeader_setHeader, hAuth]
      simpa using hNe
  have hCarriedValue : user ≠ [] → carried.header "Authorization".toList =
      Text.basicAuthenticationEncode user (s.credentials u).2 := by
    intro hNe
    rw [← hCarried, if_neg (by simpa using hNe), HttpMessage.header_setHeader hAuth]
  clear hCarried
  obtain ⟨hMethod, hTarget, hBody⟩ := @extra_fields s.extraHeaders carried
  have hExtraHost := @header_extra s.extraHeaders carried "Host".toList
  have hExtraAuth := @hasHeader_extra s.extraHeaders carried "Authorization".toList
  have hExtraValue := @header_extra s.extraHeaders carried "Authorization".toList
  generalize s.extraHeaders.foldl (fun req h => req.setHeader h.1 h.2) carried = extra at *
  have hFinal (m : HttpMessage) (hm : m.method = extra.method ∧ m.target = extra.target ∧ m.body = h.body)
      (hmHost : m.header "Host".toList = extra.header "Host".toList)
      (hmHas : m.hasHeader "Authorization".toList = extra.hasHeader "Authorization".toList)
      (hmAuth : m.header "Authorization".toList = extra.header "Authorization".toList) : Asks s h u m := by
    refine ⟨hm.1.trans (hMethod.trans hCarriedFields.1), hm.2.1.trans (hTarget.trans hCarriedFields.2.1), hm.2.2, ?_, ?_, ?_⟩
    · intro hNone
      rw [hmHost, hExtraHost hNone, hCarriedHost]
    · rw [hmHas, hExtraAuth, Bool.or_eq_true, hCarriedAuth, hUserIff]
    · intro hNone hHas
      rw [hmHas, hExtraAuth, hNone, Bool.false_or, hCarriedAuth] at hHas
      rw [hmAuth, hExtraValue hNone, hCarriedValue hHas, ← hUserEq hHas]
  split
  · split
    · exact hFinal _ ⟨rfl, rfl, rfl⟩ rfl rfl rfl
    · have hType : (extra.setHeader "Content-Type".toList contentType).hasHeader "Authorization".toList =
          extra.hasHeader "Authorization".toList := by
        rw [HttpMessage.hasHeader_setHeader, hAuthType, Bool.false_or]
      exact hFinal _ ⟨rfl, rfl, rfl⟩ (HttpMessage.header_setHeader_ne hHostType) hType
        (HttpMessage.header_setHeader_ne hAuthType)
  · next hNone =>
    have hEmpty : h.body = [] := by
      by_contra hNe
      simp [hNe] at hNone
    exact hFinal extra ⟨rfl, rfl, (hBody.trans hCarriedFields.2.2).trans hEmpty.symm⟩ rfl rfl rfl

end Asks

end HttpClient

/-! ## What a connection asks of the network -/

namespace TlsConnection

/-- An entry of a connection that is opened to a host. -/
def OpensTo (c : Nat) (host : Text) (port : Int) (e : Sigma NetAnswer) : Prop :=
  match e.1 with
  | .connect c' h p => c' = c ∧ h = host ∧ p = port
  | .handshake c' h _ => c' = c ∧ h = host
  | .verifyCert c' h => c' = c ∧ h = host
  | .send .. => False
  | _ => True

/-- The connection was made, and its certificate accepted for the host if it verifies. -/
structure OpenedTo (verify : Bool) (c : Nat) (host : Text) (port : Int) (l : List (Sigma NetAnswer)) : Prop where
  connected : ⟨.connect c host port, true⟩ ∈ l
  accepted : verify = true → ⟨.verifyCert c host, true⟩ ∈ l

variable {env : Environment NetAnswer} {c : Nat} {D : Dialogue NetAnswer TlsConnection}
  {E : Dialogue NetAnswer TlsConnection → Prop}

theorem handshake_opened (host : Text) (port : Int) (hHost : D.state.hostName = host) :
    Ends (tlsHandshake env c) D (fun rv t => ∃ l, t.trace = l ++ D.trace ∧ (∀ e ∈ l, OpensTo c host port e) ∧
      (rv = 0 → t.state.isOpen = D.state.isOpen ∧ t.state.secure = true ∧
        (D.state.verifyPeer = true → ⟨.verifyCert c host, true⟩ ∈ l))) E := by
  subst hHost
  unfold tlsHandshake failMessage fail
  simp only [ends_bind, ends_ask, ends_read, ends_ite, ends_update, ends_pure]
  refine ⟨fun _ => ⟨fun _ => ?_, fun _ => ⟨fun _ => ⟨fun hValid => ?_, fun _ => ?_⟩, fun hOff => ?_⟩⟩, fun _ => ?_⟩
  · exact ⟨[_, _, _], rfl, by simp [OpensTo], fun h => absurd h (by decide)⟩
  · exact ⟨[_, _, _], rfl, by simp [OpensTo], fun _ => ⟨trivial, trivial, fun _ => by rw [hValid]; exact List.mem_cons_self⟩⟩
  · exact ⟨[_, _, _, _], rfl, by simp [OpensTo], fun h => absurd h (by decide)⟩
  · exact ⟨[_, _], rfl, by simp [OpensTo], fun _ => ⟨trivial, trivial, fun hOn => absurd hOn hOff⟩⟩
  · exact ⟨[_, _], rfl, by simp [OpensTo], fun h => absurd h (by decide)⟩

theorem connect_opened (host : Text) (port : Int) :
    Ends (connect env c host port true) D (fun rv t => ∃ l, t.trace = l ++ D.trace ∧ (∀ e ∈ l, OpensTo c host port e) ∧
      (rv = 0 → t.state.isOpen = true ∧ t.state.secure = true ∧ OpenedTo D.state.verifyPeer c host port l)) E := by
  unfold connect startTls failMessage fail close
  simp only [ends_bind, ends_update, ends_ite, ends_ask, ends_read, ends_pure]
  refine ⟨fun hConnected => ⟨fun _ => ⟨fun hNot => ?_, fun _ => ⟨fun hNot => ?_, fun _ => ⟨fun _ => ?_, fun _ => ?_⟩⟩⟩,
    fun hNot => absurd trivial hNot⟩, fun _ => ?_⟩
  · exact absurd hNot (by simp)
  · exact absurd hNot (by simp)
  · apply (handshake_opened host port rfl).imp
    rintro rv t ⟨l, hTrace, hAll, hEnd⟩
    refine ⟨l ++ [_, _], by rw [hTrace, List.append_assoc]; rfl, ?_, fun hZero => ?_⟩
    · intro e he
      rcases List.mem_append.mp he with he | he
      · exact hAll e he
      · rcases List.mem_cons.mp he with rfl | he
        · trivial
        · rw [List.mem_singleton.mp he]
          exact ⟨rfl, rfl, rfl⟩
    · obtain ⟨hOpen, hSecure, hAccepted⟩ := hEnd hZero
      refine ⟨hOpen, hSecure, ?_, fun hOn => List.mem_append_left _ (hAccepted hOn)⟩
      rw [hConnected]
      simp
  · exact ⟨[_, _, _], rfl, by simp [OpensTo], fun h => absurd h (by decide)⟩
  · exact ⟨[_, _], rfl, by simp [OpensTo], fun h => absurd h (by decide)⟩

namespace Passive

variable {I : Dialogue NetAnswer TlsConnection → Prop} (hI : Passive c I)

include hI

theorem keeps_readHeaders (headers : List (Text × Text)) (total n : Nat) :
    Program.Keeps I (HttpMessage.readHeaders env c headers total n) := by
  induction n generalizing headers total with
  | zero => exact keeps_pure _
  | succ n ih =>
    refine .bind (hI.keeps_readLine 16384) fun line => ?_
    cases line with
    | none => exact keeps_pure _
    | some line =>
      refine .ite (keeps_pure _) (.ite (keeps_pure _) ?_)
      cases HttpMessage.addLine headers line with
      | none => exact keeps_pure _
      | some headers => exact ih headers (total + line.length)

theorem keeps_readChunks (maxBody : Nat) (body : Text) (n : Nat) :
    Program.Keeps I (HttpMessage.readChunks env c maxBody body n) := by
  induction n generalizing body with
  | zero => exact keeps_throw _
  | succ n ih =>
    refine .bind (hI.keeps_readLine 1024) fun line => ?_
    cases line with
    | none => exact keeps_pure _
    | some line =>
      dsimp only
      cases HttpMessage.chunkSize line with
      | none => exact keeps_pure _
      | some k =>
        refine .ite (keeps_pure _) (.ite (keeps_pure _) (.bind (hI.keeps_readBytes k) fun chunk => ?_))
        exact .ite (keeps_pure _) (.bind (hI.keeps_readLine 2) fun _ => .ite (ih _) (keeps_pure _))

theorem keeps_readTrailers (n : Nat) : Program.Keeps I (HttpMessage.readTrailers env c n) := by
  induction n with
  | zero => exact keeps_throw _
  | succ n ih =>
    refine .bind (hI.keeps_readLine 16384) fun line => ?_
    cases line with
    | none => exact keeps_pure _
    | some line => exact .ite (keeps_pure _) ih

theorem keeps_readBody (msg : HttpMessage) (maxBody : Nat) (readToClose : Bool) (turns : Nat) :
    Program.Keeps I (HttpMessage.readBody env c msg maxBody readToClose turns) := by
  refine .ite (.bind (hI.keeps_readChunks maxBody [] turns) fun body => ?_) (.ite ?_ (.ite ?_ (keeps_pure _)))
  · cases body with
    | none => exact keeps_pure _
    | some body => exact .bind (hI.keeps_readTrailers turns) fun _ => keeps_pure _
  · unfold HttpMessage.readSized
    cases Text.wholeNumber 10 (msg.header "Content-Length".toList) with
    | none => exact keeps_pure _
    | some n => exact .ite (keeps_pure _) (.bind (hI.keeps_readBytes n) fun _ => keeps_pure _)
  · exact hI.keeps_readAll _ turns

theorem keeps_readResponse (headRequest : Bool) (maxBody turns n : Nat) :
    Program.Keeps I (HttpMessage.readResponse env c headRequest maxBody turns n) := by
  induction n with
  | zero => exact keeps_throw _
  | succ n ih =>
    refine .bind (hI.keeps_readLine 16384) fun line => ?_
    cases line.bind HttpMessage.parseStatusLine with
    | none => exact keeps_pure _
    | some msg =>
      refine .bind (hI.keeps_readHeaders [] 0 262146) fun headers => ?_
      cases headers with
      | none => exact keeps_pure _
      | some headers =>
        refine .ite ih (.ite (keeps_pure _) ?_)
        exact .bind (hI.keeps_readBody _ maxBody true turns) fun _ => keeps_pure _

end Passive

end TlsConnection

/-! ## One request -/

namespace HttpClient

/-- An entry of the connection of one request. -/
def HopEntry (verify : Bool) (c : Nat) (u : URLInfo) (m : HttpMessage) (tr : List (Sigma NetAnswer))
    (e : Sigma NetAnswer) : Prop :=
  match e.1 with
  | .connect c' host port => c' = c ∧ host = u.host ∧ port = u.port
  | .handshake c' host _ => c' = c ∧ host = u.host
  | .verifyCert c' host => c' = c ∧ host = u.host
  | .send c' secure bytes => c' = c ∧ secure = true ∧ bytes = m.requestText ∧
      TlsConnection.OpenedTo verify c u.host u.port tr
  | _ => True

def isSend (c : Nat) (e : Sigma NetAnswer) : Bool :=
  match e.1 with
  | .send c' _ _ => c' = c
  | _ => false

/-- How often connection `c` was sent to. -/
def sends (c : Nat) (l : List (Sigma NetAnswer)) : Nat := l.countP (isSend c)

structure HopTrace (verify : Bool) (c : Nat) (u : URLInfo) (m : HttpMessage) (l : List (Sigma NetAnswer)) : Prop where
  each : Each (HopEntry verify c u m) l
  once : ∀ c', sends c' l ≤ 1

section Hop

variable {env : Environment NetAnswer} {c turns : Nat} {verify : Bool} {u : URLInfo} {m : HttpMessage}
  {l k : List (Sigma NetAnswer)} {tr : List (Sigma NetAnswer)}

theorem hopTrace_of_opens (verify : Bool) (m : HttpMessage) (h : ∀ e ∈ l, TlsConnection.OpensTo c u.host u.port e) :
    Each (HopEntry verify c u m) l ∧ ∀ c', sends c' l = 0 := by
  constructor
  · apply Each.of_forall
    rintro ⟨r, a⟩ he tr
    have hOpens := h _ he
    cases r <;> trivial
  · intro c'
    apply List.countP_eq_zero.mpr
    rintro ⟨r, a⟩ he
    have hOpens := h _ he
    cases r <;> first | exact Bool.false_ne_true | exact hOpens.elim

theorem hopEntry_append (e : Sigma NetAnswer) (h : HopEntry verify c u m l e) : HopEntry verify c u m (l ++ k) e := by
  obtain ⟨r, a⟩ := e
  cases r <;> first
    | exact h
    | exact ⟨h.1, h.2.1, h.2.2.1, List.mem_append_left k h.2.2.2.connected,
        fun hOn => List.mem_append_left k (h.2.2.2.accepted hOn)⟩

/-- The entries since `tr` are those of one request. -/
def Hopped (verify : Bool) (c : Nat) (u : URLInfo) (m : HttpMessage) (tr : List (Sigma NetAnswer))
    (D : Dialogue NetAnswer TlsConnection) : Prop :=
  ∃ l, D.trace = l ++ tr ∧ HopTrace verify c u m l

theorem hopped_passive : TlsConnection.Passive c (Hopped verify c u m tr) where
  message := by
    rintro D msg ⟨l, hTrace, hHop⟩
    exact ⟨_ :: l, congrArg _ hTrace, ⟨trivial, hHop.each⟩, hHop.once⟩
  fill := by
    rintro D secure r ⟨l, hTrace, hHop⟩
    exact ⟨_ :: l, congrArg _ hTrace, ⟨trivial, hHop.each⟩, hHop.once⟩
  error h := h
  rbuf h := h

theorem writeRequest_hopped {D : Dialogue NetAnswer TlsConnection}
    (hTrace : D.trace = l ++ tr) (hEach : Each (HopEntry verify c u m) l) (hNone : ∀ c', sends c' l = 0)
    (hOpened : TlsConnection.OpenedTo verify c u.host u.port l) (hSecure : D.state.secure = true) :
    Ends (HttpMessage.writeRequest env c m) D (fun _ => Hopped verify c u m tr) (Hopped verify c u m tr) := by
  have hSame : Hopped verify c u m tr D := ⟨l, hTrace, hEach, fun c' => by rw [hNone]; exact Nat.zero_le 1⟩
  unfold HttpMessage.writeRequest HttpMessage.writeMessage TlsConnection.send TlsConnection.fail
  simp only [ends_bind, ends_read, ends_ite, ends_ask, ends_pure, ends_update]
  have hSent (sent : Bool) : Hopped verify c u m tr
      ⟨D.state, ⟨.send c D.state.secure m.requestText, sent⟩ :: D.trace⟩ := by
    refine ⟨_ :: l, congrArg _ hTrace, ⟨⟨rfl, hSecure, rfl, hOpened⟩, hEach⟩, fun c' => ?_⟩
    have hBefore : l.countP (isSend c') = 0 := hNone c'
    rw [sends, List.countP_cons, hBefore]
    split <;> omega
  refine ⟨fun _ => hSame, fun _ => ⟨fun _ => hSame, fun _ => ⟨fun _ => hSame, fun _ => ⟨fun _ => hSent _, fun _ => ?_⟩⟩⟩⟩
  exact hopped_passive.keeps_failMessage _ (hSent _)

/-- The settings are left as they are. -/
def SameSettings (s t : HttpClient) : Prop := t = { s with conn := t.conn, error := t.error }

theorem SameSettings.trans {s t v : HttpClient} (h : SameSettings s t) (h' : SameSettings t v) : SameSettings s v := by
  unfold SameSettings at h h' ⊢
  rw [h', h]

theorem onConnection_ends {α : Type} {x : NetM TlsConnection α} {D : Dialogue NetAnswer HttpClient}
    {P : α → Dialogue NetAnswer TlsConnection → Prop} {F : Dialogue NetAnswer TlsConnection → Prop}
    (h : Ends x ⟨D.state.conn, D.trace⟩ P F) :
    Ends (onConnection x) D (fun a t => P a ⟨t.state.conn, t.trace⟩ ∧ SameSettings D.state t.state)
      (fun t => F ⟨t.state.conn, t.trace⟩ ∧ SameSettings D.state t.state) := by
  unfold onConnection
  rw [ends_zoom]
  exact h.mono (fun _ _ ht => ⟨ht, rfl⟩) fun _ ht => ⟨ht, rfl⟩

/-- The entries since `D` are those of one request, and the settings are those of `D`. -/
def AfterOne (c : Nat) (u : URLInfo) (m : HttpMessage) (D t : Dialogue NetAnswer HttpClient) : Prop :=
  Hopped D.state.verifyPeer c u m D.trace ⟨t.state.conn, t.trace⟩ ∧ SameSettings D.state t.state

theorem fail_after {D D' : Dialogue NetAnswer HttpClient} (h : AfterOne c u m D D') (msg : Text) :
    Ends (fail msg) D' (fun _ => AfterOne c u m D) (AfterOne c u m D) :=
  ⟨h.1, h.2.trans rfl⟩

theorem sendOne_after (D : Dialogue NetAnswer HttpClient) (method body contentType : Text) :
    Ends (sendOne env c turns method u body contentType) D
      (fun _ => AfterOne c u (D.state.requestTo method u body contentType) D)
      (AfterOne c u (D.state.requestTo method u body contentType) D) := by
  generalize hm : D.state.requestTo method u body contentType = m
  unfold sendOne
  rw [ends_bind, ends_update, ends_bind]
  refine (onConnection_ends (TlsConnection.connect_opened (E := fun _ => False) u.host u.port)).mono ?_
    fun _ h => h.1.elim
  rintro rv t ⟨⟨l, hTrace, hAll, hEnd⟩, hSame⟩
  have hNew : SameSettings D.state { D.state with conn := { verifyPeer := D.state.verifyPeer } } := rfl
  replace hSame := hNew.trans hSame
  obtain ⟨hEach, hNone⟩ := hopTrace_of_opens D.state.verifyPeer m hAll
  have hAfter : AfterOne c u m D t :=
    ⟨⟨l, hTrace, hEach, fun c' => by rw [hNone]; exact Nat.zero_le 1⟩, hSame⟩
  rw [ends_bind, ends_read, ends_ite]
  refine ⟨fun _ => fail_after hAfter _, fun hZero => ?_⟩
  obtain ⟨-, hSecure, hOpened⟩ := hEnd (by simpa using hZero)
  have hReq : t.state.requestTo method u body contentType = m := by
    rw [hSame, ← hm]
    rfl
  rw [hReq, ends_bind]
  refine (onConnection_ends (writeRequest_hopped hTrace hEach hNone hOpened hSecure)).mono ?_
    fun _ h => ⟨h.1, hSame.trans h.2⟩
  rintro written t' ⟨hHopped, hSame'⟩
  have hAfter' : AfterOne c u m D t' := ⟨hHopped, hSame.trans hSame'⟩
  rw [ends_ite]
  constructor
  · intro _
    rw [ends_bind, ends_read]
    exact fail_after hAfter' _
  · intro _
    rw [ends_bind]
    refine (onConnection_ends (hopped_passive.keeps_readResponse _ _ turns turns _ hHopped)).mono ?_
      fun _ h => ⟨h.1, hAfter'.2.trans h.2⟩
    rintro response t'' ⟨hHopped', hSame''⟩
    have hAfter'' : AfterOne c u m D t'' := ⟨hHopped', hAfter'.2.trans hSame''⟩
    cases response with
    | some response => exact hAfter''
    | none =>
      rw [ends_bind, ends_read]
      exact fail_after hAfter'' _

end Hop

/-! ## The chain of requests -/

section Chain

/-- `h'` is what a response to `h` redirects to. -/
def Follows (h h' : Hop) : Prop :=
  ∃ u response, URL.parse h.url = some u ∧ isRedirect response.status = true ∧
    response.header "Location".toList ≠ [] ∧ h' = h.next u response

/-- An entry that belongs to one of the hops, each of which has a connection of its own from `c` on. -/
def Allowed (s : HttpClient) (first : Text) (c : Nat) (hops : List Hop) (tr : List (Sigma NetAnswer))
    (e : Sigma NetAnswer) : Prop :=
  ∃ i h u m, hops[i]? = some h ∧ URL.parse h.url = some u ∧ u.scheme = "https".toList ∧
    Asks { s with authHost := first } h u m ∧ HopEntry s.verifyPeer (c + i) u m tr e

/-- At most `n` hops from `h` on, each redirected from the one before it, and the entries that they made, the last
first. -/
structure Chain (s : HttpClient) (first : Text) (c : Nat) (h : Hop) (n : Nat) (hops : List Hop)
    (l : List (Sigma NetAnswer)) : Prop where
  head : hops.head? = some h
  length : hops.length ≤ n
  follows : hops.IsChain Follows
  each : Each (Allowed s first c hops) l
  once : ∀ c', sends c' l ≤ 1

/-- The entries since `tr` are those of a chain. -/
def Chained (s : HttpClient) (first : Text) (c : Nat) (h : Hop) (n : Nat) (tr : List (Sigma NetAnswer))
    (D : Dialogue NetAnswer HttpClient) : Prop :=
  ∃ hops l, D.trace = l ++ tr ∧ Chain s first c h n hops l

/-- The response is none that `Request` goes on from. -/
def Settled (s : HttpClient) (response : HttpMessage) : Prop :=
  isRedirect response.status = true → response.header "Location".toList ≠ [] → s.maxRedirects ≤ 0

variable {s : HttpClient} {first : Text} {c n : Nat} {h h' : Hop} {hops : List Hop} {l k : List (Sigma NetAnswer)}
  {u : URLInfo} {m : HttpMessage}

theorem sends_eq_zero {P : List (Sigma NetAnswer) → Sigma NetAnswer → Prop} (hl : Each P l)
    (hNone : ∀ tr e, P tr e → isSend c e = false) : sends c l = 0 := by
  induction l with
  | nil => rfl
  | cons e l ih =>
    have hFirst : isSend c e = false := hNone l e hl.1
    rw [sends, List.countP_cons_of_neg (by simp [hFirst])]
    exact ih hl.2

theorem hopEntry_isSend {verify : Bool} {tr : List (Sigma NetAnswer)} {e : Sigma NetAnswer} {c' : Nat}
    (h : HopEntry verify c u m tr e) (hOther : c' ≠ c) : isSend c' e = false := by
  obtain ⟨r, a⟩ := e
  cases r with
  | send i secure bytes =>
    obtain rfl : i = c := h.1
    exact decide_eq_false fun hEq => hOther hEq.symm
  | _ => rfl

theorem chain_start (h : Hop) : Chain s first c h (n + 1) [h] [] :=
  ⟨rfl, Nat.succ_le_succ (Nat.zero_le n), List.IsChain.singleton h, trivial, fun _ => Nat.zero_le 1⟩

theorem chain_single (hParse : URL.parse h.url = some u) (hScheme : u.scheme = "https".toList)
    (hAsks : Asks { s with authHost := first } h u m) (hl : HopTrace s.verifyPeer c u m l) :
    Chain s first c h (n + 1) [h] l where
  head := rfl
  length := Nat.succ_le_succ (Nat.zero_le n)
  follows := .singleton h
  each := hl.each.mono fun _ _ hEntry => ⟨0, h, u, m, rfl, hParse, hScheme, hAsks, hEntry⟩
  once := hl.once

theorem chain_cons (hParse : URL.parse h.url = some u) (hScheme : u.scheme = "https".toList)
    (hAsks : Asks { s with authHost := first } h u m) (hl : HopTrace s.verifyPeer c u m l) (hNext : Follows h h')
    (hk : Chain s first (c + 1) h' n hops k) : Chain s first c h (n + 1) (h :: hops) (k ++ l) where
  head := rfl
  length := Nat.succ_le_succ hk.length
  follows := by
    obtain ⟨rest, rfl⟩ : ∃ rest, hops = h' :: rest := List.head?_eq_some_iff.mp hk.head
    exact List.isChain_cons_cons.mpr ⟨hNext, hk.follows⟩
  each := by
    refine Each.append (hk.each.mono fun tr e hEntry => ?_) (hl.each.mono fun tr e hEntry => ?_) fun tr e hEntry => ?_
    · obtain ⟨i, g, v, m', hGet, hRest⟩ := hEntry
      refine ⟨i + 1, g, v, m', hGet, ?_⟩
      rwa [← Nat.add_assoc, Nat.add_right_comm]
    · exact ⟨0, h, u, m, rfl, hParse, hScheme, hAsks, hEntry⟩
    · obtain ⟨i, g, v, m', hGet, hUrl, hHttps, hTells, hHop⟩ := hEntry
      exact ⟨i, g, v, m', hGet, hUrl, hHttps, hTells, hopEntry_append e hHop⟩
  once c' := by
    rw [sends, List.countP_append]
    by_cases hSame : c' = c
    · have hLater : sends c' k = 0 := by
        apply sends_eq_zero hk.each
        rintro tr e ⟨i, g, v, m', -, -, -, -, hHop⟩
        exact hopEntry_isSend hHop (by omega)
      have hOnce := hl.once c'
      unfold sends at hLater hOnce
      omega
    · have hEarlier : sends c' l = 0 := sends_eq_zero hl.each fun tr e hHop => hopEntry_isSend hHop hSame
      have hOnce := hk.once c'
      unfold sends at hEarlier hOnce
      omega

variable {env : Environment NetAnswer} {turns : Nat}

/-- The settings, with what a call changes of the other members. -/
def SameRequests (s t : HttpClient) : Prop :=
  t = { s with authHost := t.authHost, error := t.error, finalUrl := t.finalUrl, conn := t.conn }

theorem requestLoop_chained {D : Dialogue NetAnswer HttpClient} {redirects : Nat} (contentType : Text)
    (hSettings : SameRequests s D.state)
    (hFirst : ∀ u, URL.parse h.url = some u → (if D.state.authHost.isEmpty then u.host else D.state.authHost) = first)
    (hn : n + redirects = s.maxRedirects.toNat + 1) (hPos : 0 < n) :
    Ends (requestLoop env c turns contentType redirects h n) D
      (fun r t => Chained s first (c + redirects) h n D.trace t ∧ ∀ m ∈ r, Settled s m)
      (Chained s first (c + redirects) h n D.trace) := by
  induction n generalizing redirects h D with
  | zero => omega
  | succ n ih =>
    have hStart : Chained s first (c + redirects) h (n + 1) D.trace D := ⟨[h], [], rfl, chain_start h⟩
    unfold requestLoop
    cases hParse : URL.parse h.url with
    | none => exact ⟨hStart, by simp⟩
    | some u =>
      dsimp only
      rw [ends_ite]
      refine ⟨fun _ => ⟨hStart, by simp⟩, fun hScheme => ?_⟩
      have hScheme : u.scheme = "https".toList := not_not.mp hScheme
      rw [ends_bind, ends_update, hFirst u hParse]
      generalize hNow : { D.state with finalUrl := h.url, authHost := first } = now
      have hNowSettings : SameRequests s now := by
        rw [← hNow, hSettings]
        rfl
      have hAsks : Asks { s with authHost := first } h u (now.requestTo h.method u h.body contentType) := by
        have hNowAsks := requestTo_asks now h u contentType
        rw [← hNow, hSettings] at hNowAsks ⊢
        exact ⟨hNowAsks.method, hNowAsks.target, hNowAsks.body, hNowAsks.host, hNowAsks.authorization,
          hNowAsks.credentials⟩
      have hFirstNe : first ≠ [] := by
        rw [← hFirst u hParse]
        split
        · exact (URL.parsed_of_parse hParse).host_ne
        · next hNe => simpa using hNe
      rw [ends_bind]
      have hVerify : now.verifyPeer = s.verifyPeer := by rw [hNowSettings]
      have hAuthHost : now.authHost = first := by rw [← hNow]
      have hOne := @sendOne_after env (c + redirects) turns u ⟨now, D.trace⟩ h.method h.body contentType
      unfold AfterOne Hopped at hOne
      rw [hVerify] at hOne
      refine hOne.mono ?_ ?_
      · rintro response t ⟨⟨l, hTrace, hHop⟩, hSame⟩
        have hAfter : Chained s first (c + redirects) h (n + 1) D.trace t :=
          ⟨[h], l, hTrace, chain_single hParse hScheme hAsks hHop⟩
        have hThen : SameRequests s t.state := by
          unfold SameRequests
          unfold SameSettings at hSame
          rw [hSame]
          exact hNowSettings ▸ rfl
        have hMax : t.state.maxRedirects = s.maxRedirects := by rw [hThen]
        rw [ends_bind, ends_read]
        cases response with
        | none => exact ⟨hAfter, by simp⟩
        | some response =>
          dsimp only
          rw [ends_ite, hMax]
          constructor
          · intro hEnd
            refine ⟨hAfter, fun m hm hRedirect hLocation => ?_⟩
            obtain rfl := Option.some.inj hm
            simp only [Bool.or_eq_true, Bool.not_eq_true', decide_eq_true_eq, List.isEmpty_iff] at hEnd
            rcases hEnd with (hOther | hNone) | hMax
            · rw [hRedirect] at hOther
              cases hOther
            · exact absurd hNone hLocation
            · exact hMax
          · intro hGo
            simp only [Bool.or_eq_true, Bool.not_eq_true', decide_eq_true_eq, List.isEmpty_iff, not_or,
              Bool.not_eq_false] at hGo
            obtain ⟨⟨hRedirect, hLocation⟩, hSome⟩ := hGo
            rw [ends_ite]
            constructor
            · intro _
              exact ⟨hAfter, by simp⟩
            · intro hMore
              have hNext : Follows h (h.next u response) := ⟨u, response, hParse, hRedirect, hLocation, rfl⟩
              have hHost : t.state.authHost = first := by
                unfold SameSettings at hSame
                rw [hSame, hAuthHost]
              have hLater : ∀ v, URL.parse (h.next u response).url = some v →
                  (if t.state.authHost.isEmpty then v.host else t.state.authHost) = first := by
                intro v _
                rw [hHost, if_neg (by simpa using hFirstNe)]
              have hJoin (t' : Dialogue NetAnswer HttpClient)
                  (ht' : Chained s first (c + (redirects + 1)) (h.next u response) n t.trace t') :
                  Chained s first (c + redirects) h (n + 1) D.trace t' := by
                obtain ⟨hops, k, hTrace', hChain⟩ := ht'
                refine ⟨h :: hops, k ++ l, ?_, chain_cons hParse hScheme hAsks hHop hNext hChain⟩
                rw [hTrace', List.append_assoc]
                exact congrArg _ hTrace
              exact (ih hThen hLater (by omega) (by omega)).mono (fun _ t' ht' => ⟨hJoin t' ht'.1, ht'.2⟩) hJoin
      · rintro t ⟨⟨l, hTrace, hHop⟩, -⟩
        exact ⟨[h], l, hTrace, chain_single hParse hScheme hAsks hHop⟩

/-- The host of a URL, where it has one. -/
def hostOf (url : Text) : Text := ((URL.parse url).map URLInfo.host).getD []

/-- Whatever the servers answer, a call makes at most `max_redirects` requests after its first, one on each
connection. Each goes over TLS to the host and port of a URL with `https` that a redirect gave, after the certificate
was accepted for that host if `verify_peer` is on, and has credentials only where `AddHeader` gave them or the host
is that of the first URL. A response that redirects is returned only if no redirects are followed. -/
theorem request_chained (env : Environment NetAnswer) (c turns : Nat) (method url body contentType : Text)
    (D : Dialogue NetAnswer HttpClient) : Ends (request env c turns method url body contentType) D
      (fun r t => Chained D.state (hostOf url) c ⟨url, method, body⟩ (D.state.maxRedirects.toNat + 1) D.trace t ∧
        ∀ m ∈ r, Settled D.state m)
      (Chained D.state (hostOf url) c ⟨url, method, body⟩ (D.state.maxRedirects.toNat + 1) D.trace) := by
  unfold request
  rw [ends_bind, ends_update, ends_bind, ends_read]
  have hFirst : ∀ u, URL.parse url = some u → u.host = hostOf url := by
    intro u hu
    rw [hostOf, hu]
    rfl
  exact @requestLoop_chained D.state (hostOf url) c _ ⟨url, method, body⟩ env turns
    ⟨{ D.state with error := [], authHost := [] }, D.trace⟩ 0 contentType rfl hFirst rfl (Nat.succ_pos _)

end Chain

end HttpClient

end DataReel
