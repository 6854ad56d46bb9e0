import Mathlib.Data.List.Basic

/-! # Telnet clients

`gxsTelnetClient` takes the stream of a server one byte at a time. A byte moves
the state machine, may leave one character for `GetChar`, and may cause commands
to be sent.
-/

namespace DataReel

/-- `gxsTelnetTermTypes` -/
inductive TermType where
  | nvt
  | vt100f
  | env
  deriving DecidableEq, Repr

/-- `gxsTelnetState` -/
inductive TelnetState where
  | data
  | code
  | option
  deriving DecidableEq, Repr

/-- The member function that the pointer `DataProc` holds. -/
inductive DataProc where
  | writeToTerminal
  | negotiateTermType
  deriving DecidableEq, Repr

structure TelnetClient where
  termType : TermType := .nvt
  termString : List UInt8 := [78, 86, 84]
  state : TelnetState := .data
  currCode : UInt8
  dataProc : DataProc := .writeToTerminal
  output : UInt8 := 0
  outputCharWaiting : Bool := false
  vtEscapeSeq : Bool := false
  deriving DecidableEq, Repr

namespace Telnet

/-! ## Commands and options -/

def iac : UInt8 := 255
def dont : UInt8 := 254
def doOption : UInt8 := 253
def wont : UInt8 := 252
def will : UInt8 := 251
def sb : UInt8 := 250
def se : UInt8 := 240

def echo : UInt8 := 1
def supp : UInt8 := 3
def term : UInt8 := 24

/-- The qualifier with which a server asks for the terminal type. -/
def sendQualifier : UInt8 := 1

/-- The letters that `VT100FWrite` knows as ends of escape sequences. -/
def vtEnds : List UInt8 := [109, 72, 75, 74, 65]

end Telnet

namespace TelnetClient

open Telnet

/-- `SendCommand` -/
def command (command option : UInt8) : List UInt8 := [iac, command, option]

def setUnknownOption (code option : UInt8) : List (List UInt8) :=
  if code = will then [command dont option]
  else if code = wont then []
  else if code = doOption then [command wont option]
  else if code = dont then [command wont option]
  else []

def setEchoOption (code option : UInt8) : List (List UInt8) :=
  if code = will then [command doOption option]
  else if code = wont then [command will option]
  else if code = doOption then [command wont option]
  else if code = dont then [command wont option]
  else [command dont option]

/-- Suppress go ahead. -/
def setSuppOption (code _option : UInt8) : List (List UInt8) :=
  if code = will then [command doOption supp, command will supp, command doOption echo]
  else if code = wont then [command dont supp, command wont supp]
  else if code = doOption then [command doOption supp]
  else if code = dont then [command dont supp]
  else []

def setTermOption (code option : UInt8) : List (List UInt8) :=
  if code = will then [command dont option]
  else if code = wont then []
  else if code = doOption then [command will option]
  else []

variable (t : TelnetClient)

/-- `GetChar` -/
def getChar : Option UInt8 := if t.outputCharWaiting then some t.output else none

def nvtWrite (data : UInt8) : TelnetClient :=
  if data = 0 then { t with outputCharWaiting := false, output := 0 }
  else { t with outputCharWaiting := true, output := data }

def vt100fWrite (data : UInt8) : TelnetClient :=
  if t.vtEscapeSeq ∧ data ∉ vtEnds then { t with outputCharWaiting := false, output := 0 }
  else if data = 0 then { t with outputCharWaiting := false, output := 0 }
  else if data = 27 then { t with outputCharWaiting := false, output := 0, vtEscapeSeq := true }
  else if data ∈ vtEnds ∧ t.vtEscapeSeq then
    { t with outputCharWaiting := false, output := 0, vtEscapeSeq := false }
  else { t with outputCharWaiting := true, output := data }

def writeToTerminal (data : UInt8) : TelnetClient :=
  match t.termType with
  | .nvt | .env => t.nvtWrite data
  | .vt100f => t.vt100fWrite data

/-- What a client answers when it is asked for its terminal type. -/
def termReply : List UInt8 := [iac, sb, term, 0] ++ t.termString ++ [iac, se]

def negotiateTermType (data : UInt8) : TelnetClient × List (List UInt8) :=
  ({ t with outputCharWaiting := false, output := 0 },
    if data = sendQualifier then [t.termReply] else [])

def callDataProc (data : UInt8) : TelnetClient × List (List UInt8) :=
  match t.dataProc with
  | .writeToTerminal => (t.writeToTerminal data, [])
  | .negotiateTermType => t.negotiateTermType data

/-- `ReadTelnetData`: the client after the byte and what it sends. -/
def readTelnetData (data : UInt8) : TelnetClient × List (List UInt8) :=
  let t := { t with outputCharWaiting := false, output := 0 }
  match t.state with
  | .data => if data = iac then ({ t with state := .code }, []) else t.callDataProc data
  | .code =>
    let t := { t with state := .data }
    if data = iac then t.callDataProc data
    else if data = se then ({ t with dataProc := .writeToTerminal }, [])
    else if data = sb ∨ data = will ∨ data = wont ∨ data = doOption ∨ data = dont then
      ({ t with currCode := data, state := .option }, [])
    else (t, [])
  | .option =>
    let t := { t with state := .data }
    if t.currCode = sb then ({ t with dataProc := .negotiateTermType }, [])
    else if data = echo then (t, setEchoOption t.currCode data)
    else if data = supp then (t, setSuppOption t.currCode data)
    else if data = term then (t, setTermOption t.currCode data)
    else (t, setUnknownOption t.currCode data)

/-- What a caller that passes every byte to `ReadTelnetData` and asks `GetChar` after it gets:
the client at the end, the characters, and what was sent. -/
def pass : TelnetClient → List UInt8 → TelnetClient × List UInt8 × List (List UInt8)
  | t, [] => (t, [], [])
  | t, data :: rest =>
    let step := t.readTelnetData data
    let after := pass step.1 rest
    (after.1, step.1.getChar.toList ++ after.2.1, step.2 ++ after.2.2)

/-- The decoded characters. -/
def decoded (bytes : List UInt8) : List UInt8 := (t.pass bytes).2.1

def sent (bytes : List UInt8) : List (List UInt8) := (t.pass bytes).2.2

variable {t}

theorem pass_append (bytes more : List UInt8) :
    t.pass (bytes ++ more) =
      (((t.pass bytes).1.pass more).1, (t.pass bytes).2.1 ++ ((t.pass bytes).1.pass more).2.1,
        (t.pass bytes).2.2 ++ ((t.pass bytes).1.pass more).2.2) := by
  induction bytes generalizing t with
  | nil => rfl
  | cons data bytes ih =>
    rw [List.cons_append, pass, ih, pass]
    simp only [List.append_assoc]

theorem decoded_append (bytes more : List UInt8) :
    t.decoded (bytes ++ more) = t.decoded bytes ++ (t.pass bytes).1.decoded more := by
  rw [decoded, pass_append]
  rfl

end TelnetClient

end DataReel
