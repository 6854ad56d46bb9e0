import DataReel.Database.Header
import DataReel.Net.TlsConnection
import Mathlib.Data.Int.Order.Basic

/-! # Database blocks over a connection

`gxStream` sends database blocks over a `gxsTLSConnection`: the memory of a block header and the bytes
of the block. The header has one layout at both ends.
-/

namespace DataReel

/-- The layout of `gxBlockHeader`. The portable classes have words of 4 bytes, addresses of 4 or 8
bytes and the lowest byte first; the native types have those of the platform, with padding before the
address where it is aligned. `addressBits` are the bits of `FAU_t`. -/
structure HeaderLayout where
  wordBytes : Nat
  addressBytes : Nat
  padding : Nat
  bigEndian : Bool
  addressBits : Nat
  fourBytes : 4 ≤ wordBytes
  fourAddressBytes : 4 ≤ addressBytes
  intFits : 32 ≤ addressBits

namespace HeaderLayout

variable (L : HeaderLayout)

def order (l : List UInt8) : List UInt8 := if L.bigEndian then l.reverse else l

def word (v : Nat) : List UInt8 := L.order (Bytes.leBytes L.wordBytes v)

/-- An address keeps the bytes that its type has. -/
def address (v : Int) : List UInt8 :=
  L.order (Bytes.leBytes L.addressBytes (v % 256 ^ L.addressBytes).toNat)

def headerSize : Nat := 3 * L.wordBytes + L.padding + L.addressBytes

def encode (gx : BlockHeader) : List UInt8 :=
  L.word gx.blockCheckWord ++ (L.word gx.blockLength ++ (L.word gx.blockStatus ++
    (List.replicate L.padding 0 ++ L.address gx.blockNdFptr)))

def readWord (l : List UInt8) : Nat := Bytes.leNat (L.order (l.take L.wordBytes))

/-- An address is converted to the signed `FAU_t`. -/
def readAddress (l : List UInt8) : Int :=
  Int.bmod (Bytes.leNat (L.order (l.take L.addressBytes))) (2 ^ L.addressBits)

def decode (l : List UInt8) : BlockHeader where
  blockCheckWord := L.readWord l
  blockLength := L.readWord (l.drop L.wordBytes)
  blockStatus := L.readWord (l.drop (2 * L.wordBytes))
  blockNdFptr := L.readAddress (l.drop (3 * L.wordBytes + L.padding))

end HeaderLayout

/-- The conversion to a signed type of 32 bits. -/
def asInt (v : Int) : Int := v.bmod (2 ^ 32)

def Text.ofBytes (l : List UInt8) : Text := l.map fun b => Char.ofNat b.toNat

def Text.toBytes (s : Text) : List UInt8 := s.map fun ch => UInt8.ofNat ch.toNat

/-- The values of `gxSocketError` that `stream_error` takes. -/
inductive StreamError where
  | noError
  | disconnected
  | blockAck
  | blockHeader
  | blockSize
  | blockSync
  deriving DecidableEq, Repr

namespace BlockStream

open Program

/-! Control bytes of blocks. -/

def gxSendBlock : UInt8 := 83
def gxAddRemoteBlock : UInt8 := 65
def gxChangeRemoteBlock : UInt8 := 67
def gxDeleteRemoteBlock : UInt8 := 68
def gxAcknowledgeBlock : UInt8 := 87

/-- The constructor, which marks a normal block. -/
def newHeader : BlockHeader := ⟨gxCheckWord, 0, gxNormalBlock, 0⟩

def setBlockStatus (gx : BlockHeader) (netStatus : UInt8) (fileStatus : Nat) : BlockHeader :=
  let blockStatus := netStatus.toNat
  let blockStatus := (blockStatus <<< 8) &&& 0xff00
  let blockStatus := blockStatus + fileStatus % 256
  { gx with
    blockStatus := blockStatus
    blockCheckWord := gxCheckWord
    blockNdFptr := 0 }

def blockStatus (gx : BlockHeader) : UInt8 := UInt8.ofNat ((gx.blockStatus &&& 0xFF00) >>> 8)

section Calls

variable (env : Environment NetAnswer) (c : Nat) (L : HeaderLayout) (maxBlock : Nat)

def writeHeader (gx : BlockHeader) : NetM TlsConnection StreamError := do
  let sent ← TlsConnection.send env c (Text.ofBytes (L.encode gx))
  if sent ≠ L.headerSize then return .blockHeader else return .noError

/-- `WriteBlock` with a header, whose length is converted to an `int`. -/
def writeBlock (buf : Text) (gx : BlockHeader) : NetM TlsConnection StreamError := do
  let err ← writeHeader env c L gx
  if err ≠ .noError then return err
  else
    let len := asInt gx.blockLength
    if len > 0 then
      let sent ← TlsConnection.send env c (buf.take len.toNat)
      if sent ≠ len then return .blockSize else return .noError
    else return .noError

/-- `WriteBlock` with a number of bytes, which the header takes as an unsigned word. -/
def writeBytes (buf : Text) (bytes : Int) : NetM TlsConnection StreamError :=
  let gx := setBlockStatus newHeader gxSendBlock gxRemoteDeviceBlock
  writeBlock env c L buf { gx with blockLength := (bytes % 256 ^ L.wordBytes).toNat }

def addBlock (block : Text) (gx : BlockHeader) : NetM TlsConnection StreamError :=
  writeBlock env c L block (setBlockStatus gx gxAddRemoteBlock gxRemoteDeviceBlock)

def changeBlock (request block : Text) (requestHeader blockHeader : BlockHeader) :
    NetM TlsConnection StreamError := do
  let err ← writeBlock env c L request
    (setBlockStatus requestHeader gxChangeRemoteBlock gxRemoteDeviceBlock)
  if err ≠ .noError then return err
  else writeBlock env c L block (setBlockStatus blockHeader gxSendBlock gxRemoteDeviceBlock)

def deleteBlock (request : Text) (gx : BlockHeader) : NetM TlsConnection StreamError :=
  writeBlock env c L request (setBlockStatus gx gxDeleteRemoteBlock gxRemoteDeviceBlock)

def writeAckBlock : NetM TlsConnection StreamError := do
  let err ← writeHeader env c L (setBlockStatus newHeader gxAcknowledgeBlock gxRemoteDeviceBlock)
  if err ≠ .noError then return .blockAck else return .noError

def writeResultBlock (resultCode : Int) : NetM TlsConnection StreamError := do
  let ack := setBlockStatus newHeader gxAcknowledgeBlock gxRemoteDeviceBlock
  let err ← writeHeader env c L { ack with blockNdFptr := resultCode }
  if err ≠ .noError then return .blockAck else return .noError

def readHeader : NetM TlsConnection (StreamError × BlockHeader) := do
  let s ← TlsConnection.readBytes env c L.headerSize
  if s.length ≠ L.headerSize then
    let t ← read
    return (if t.isOpen then .blockHeader else .disconnected, newHeader)
  else
    let gx := L.decode (Text.toBytes s)
    if gx.blockCheckWord ≠ gxCheckWord then return (.blockSync, gx)
    else if gx.blockLength > maxBlock then return (.blockSize, gx)
    else return (.noError, gx)

def readBlock (gx : BlockHeader) : NetM TlsConnection (StreamError × Text) := do
  let len := gx.blockLength
  if len > maxBlock then return (.blockSize, [])
  else if len = 0 then return (.noError, [])
  else
    let s ← TlsConnection.readBytes env c len
    if asInt s.length ≠ asInt len then return (.blockSize, []) else return (.noError, s)

/-- The result code is an `int` again. -/
def readResultBlock : NetM TlsConnection (StreamError × Int) := do
  let (err, ack) ← readHeader env c L maxBlock
  if err ≠ .noError ∨ blockStatus ack ≠ gxAcknowledgeBlock then return (.blockAck, 0)
  else return (.noError, asInt ack.blockNdFptr)

end Calls

end BlockStream

end DataReel
