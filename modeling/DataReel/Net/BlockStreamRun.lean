import DataReel.Library.Signed
import DataReel.Net.BlockStream
import DataReel.Net.Pieces
import Mathlib.Data.List.Forall2

/-! # Blocks arrive as they were sent

A header survives the way to a peer with the same layout. A block is sent whole if its length is an
`int`; the header of a longer one goes out with none or a part of its bytes.
-/

namespace DataReel

open Program

/-! ## Headers -/

namespace Text

theorem toBytes_ofBytes (l : List UInt8) : toBytes (ofBytes l) = l := by
  rw [toBytes, ofBytes, List.map_map]
  refine (List.map_congr_left fun b _ => ?_).trans (List.map_id l)
  rw [Function.comp_apply, toNat_ofNat_byte b.toNat_lt]
  exact UInt8.ofNat_toNat

theorem length_ofBytes (l : List UInt8) : (ofBytes l).length = l.length := List.length_map _

end Text

theorem asInt_eq_of_dvd {v w : Int} (h : (2 : Int) ^ 32 ∣ v - w) : asInt v = asInt w := by
  rw [asInt, asInt, Int.bmod_eq_bmod_iff_bmod_sub_eq_zero, ← Int.dvd_iff_bmod_eq_zero]
  exact h

namespace HeaderLayout

variable (L : HeaderLayout)

theorem length_order (l : List UInt8) : (L.order l).length = l.length := by
  rw [order]
  split
  · exact List.length_reverse
  · rfl

theorem order_order (l : List UInt8) : L.order (L.order l) = l := by
  rw [order, order]
  split
  · exact List.reverse_reverse l
  · rfl

theorem length_word (v : Nat) : (L.word v).length = L.wordBytes := by
  rw [word, length_order, Bytes.leBytes_length]

theorem length_address (v : Int) : (L.address v).length = L.addressBytes := by
  rw [address, length_order, Bytes.leBytes_length]

theorem length_encode (gx : BlockHeader) : (L.encode gx).length = L.headerSize := by
  simp only [encode, headerSize, List.length_append, length_word, length_address, List.length_replicate]
  omega

theorem readWord_word (v : Nat) (l : List UInt8) :
    L.readWord (L.word v ++ l) = v % 256 ^ L.wordBytes := by
  rw [readWord, List.take_left' (L.length_word v), word, order_order, Bytes.leNat_leBytes_mod]

theorem decode_checkWord (gx : BlockHeader) :
    (L.decode (L.encode gx)).blockCheckWord = gx.blockCheckWord % 256 ^ L.wordBytes :=
  L.readWord_word _ _

theorem decode_length (gx : BlockHeader) :
    (L.decode (L.encode gx)).blockLength = gx.blockLength % 256 ^ L.wordBytes := by
  change L.readWord (List.drop _ _) = _
  rw [encode, List.drop_left' (L.length_word _), readWord_word]

theorem decode_status (gx : BlockHeader) :
    (L.decode (L.encode gx)).blockStatus = gx.blockStatus % 256 ^ L.wordBytes := by
  change L.readWord (List.drop _ _) = _
  rw [encode, Nat.two_mul, ← List.drop_drop, List.drop_left' (L.length_word _),
    List.drop_left' (L.length_word _), readWord_word]

theorem readAddress_address (v : Int) :
    L.readAddress (L.address v) = (v % 256 ^ L.addressBytes).bmod (2 ^ L.addressBits) := by
  have hPow : (0 : Int) < 256 ^ L.addressBytes := Int.pow_pos (by decide)
  have hNonneg := Int.emod_nonneg v (Int.ne_of_gt hPow)
  have hLt : (v % 256 ^ L.addressBytes).toNat < 256 ^ L.addressBytes := by
    rw [Int.toNat_lt hNonneg]
    exact_mod_cast Int.emod_lt_of_pos v hPow
  rw [readAddress, List.take_of_length_le (Nat.le_of_eq (L.length_address v)), address, order_order,
    Bytes.leNat_leBytes hLt, Int.toNat_of_nonneg hNonneg]

/-- An `int` in the address comes back as it was, whatever the conversion makes of its sign. -/
theorem asInt_decode (gx : BlockHeader) :
    asInt (L.decode (L.encode gx)).blockNdFptr = asInt gx.blockNdFptr := by
  have hPlace : 3 * L.wordBytes + L.padding =
      L.wordBytes + (L.wordBytes + (L.wordBytes + L.padding)) := by omega
  have hBytes : (2 : Int) ^ 32 ∣ 256 ^ L.addressBytes := by
    rw [show (2 : Int) ^ 32 = 256 ^ 4 by decide]
    exact pow_dvd_pow 256 L.fourAddressBytes
  change asInt (L.readAddress (List.drop _ _)) = _
  rw [hPlace, encode, ← List.drop_drop, List.drop_left' (L.length_word _), ← List.drop_drop,
    List.drop_left' (L.length_word _), ← List.drop_drop, List.drop_left' (L.length_word _),
    List.drop_left' List.length_replicate, readAddress_address, asInt,
    Int.bmod_bmod_of_dvd (Nat.pow_dvd_pow 2 L.intFits)]
  apply asInt_eq_of_dvd
  rw [Int.emod_def, Int.sub_sub, Int.add_comm, ← Int.sub_sub, Int.sub_self, Int.zero_sub]
  exact Int.dvd_neg.mpr (Int.dvd_mul_of_dvd_left hBytes)

end HeaderLayout

namespace BlockStream

theorem blockStatus_eq (gx : BlockHeader) :
    blockStatus gx = UInt8.ofNat (gx.blockStatus % 65536 / 256) := by
  have hByte : (gx.blockStatus &&& 0xFF00) >>> 8 = gx.blockStatus / 2 ^ 8 % 256 := by
    rw [Nat.shiftRight_and_distrib, Nat.shiftRight_eq_div_pow]
    exact Nat.and_two_pow_sub_one_eq_mod _ 8
  rw [blockStatus, hByte]
  congr 1
  omega

/-- Words have room for the lowest two bytes. -/
theorem word_dvd (L : HeaderLayout) : 65536 ∣ 256 ^ L.wordBytes := by
  rw [show 65536 = 256 ^ 2 by decide]
  exact Nat.pow_dvd_pow 256 (Nat.le_trans (by decide) L.fourBytes)

theorem blockStatus_decode (L : HeaderLayout) (gx : BlockHeader) :
    blockStatus (L.decode (L.encode gx)) = blockStatus gx := by
  rw [blockStatus_eq, blockStatus_eq, L.decode_status, Nat.mod_mod_of_dvd _ (word_dvd L)]

theorem blockStatus_set (gx : BlockHeader) (netStatus : UInt8) (fileStatus : Nat) :
    blockStatus (setBlockStatus gx netStatus fileStatus) = netStatus := by
  have hNet := netStatus.toNat_lt
  have hShift : (netStatus.toNat <<< 8) &&& 0xff00 = netStatus.toNat * 256 := by
    rw [show (0xff00 : Nat) = 0xff <<< 8 by decide, ← Nat.shiftLeft_and_distrib, Nat.shiftLeft_eq,
      show (0xff : Nat) = 2 ^ 8 - 1 by decide, Nat.and_two_pow_sub_one_eq_mod, Nat.mod_eq_of_lt hNet]
  rw [blockStatus_eq, setBlockStatus, ← UInt8.toNat_inj, UInt8.toNat_ofNat']
  simp only [hShift]
  omega

end BlockStream

/-! ## Calls -/

/-- A block of no more than the largest length. -/
structure Block (maxBlock : Nat) where
  payload : Text
  fits : payload.length ≤ maxBlock

/-- The calls of the sending end, with headers as their constructor and the length of the block have
left them. -/
inductive BlockCall (L : HeaderLayout) (maxBlock : Nat) where
  | write (gx : BlockHeader) (b : Block maxBlock)
  | writeBytes (bytes : Int) (b : Block maxBlock) (isInt : FitsWord 32 bytes)
      (isLength : (bytes % 256 ^ L.wordBytes).toNat = b.payload.length)
  | add (gx : BlockHeader) (b : Block maxBlock)
  | change (gx gx' : BlockHeader) (request b : Block maxBlock)
  | delete (gx : BlockHeader) (request : Block maxBlock)
  | ack
  | result (resultCode : Int) (isInt : FitsWord 32 resultCode)

/-- What the other end gets. -/
inductive Message where
  | block (control : UInt8) (payload : Text)
  | result (resultCode : Int)
  deriving DecidableEq, Repr

def Message.isResult : Message → Bool
  | block .. => false
  | result _ => true

namespace BlockCall

open BlockStream

variable {L : HeaderLayout} {maxBlock : Nat}

def sizedHeader (gx : BlockHeader) (b : Block maxBlock) : BlockHeader :=
  { gx with
    blockCheckWord := gxCheckWord
    blockLength := b.payload.length }

def perform (env : Environment NetAnswer) (c : Nat) :
    BlockCall L maxBlock → NetM TlsConnection StreamError
  | write gx b => writeBlock env c L b.payload (sizedHeader gx b)
  | writeBytes bytes b _ _ => BlockStream.writeBytes env c L b.payload bytes
  | add gx b => addBlock env c L b.payload (sizedHeader gx b)
  | change gx gx' request b =>
    changeBlock env c L request.payload b.payload (sizedHeader gx request) (sizedHeader gx' b)
  | delete gx request => deleteBlock env c L request.payload (sizedHeader gx request)
  | ack => writeAckBlock env c L
  | result resultCode _ => writeResultBlock env c L resultCode

def performAll (env : Environment NetAnswer) (c : Nat) :
    List (BlockCall L maxBlock) → NetM TlsConnection (List StreamError)
  | [] => return []
  | call :: calls => do
    let err ← call.perform env c
    let errs ← performAll env c calls
    return err :: errs

/-- The headers of a call, with the bytes that belong to each. -/
def parts : BlockCall L maxBlock → List (BlockHeader × Text)
  | write gx b => [(sizedHeader gx b, b.payload)]
  | writeBytes _ b _ _ =>
    [(sizedHeader (setBlockStatus newHeader gxSendBlock gxRemoteDeviceBlock) b, b.payload)]
  | add gx b =>
    [(setBlockStatus (sizedHeader gx b) gxAddRemoteBlock gxRemoteDeviceBlock, b.payload)]
  | change gx gx' request b =>
    [(setBlockStatus (sizedHeader gx request) gxChangeRemoteBlock gxRemoteDeviceBlock,
      request.payload),
    (setBlockStatus (sizedHeader gx' b) gxSendBlock gxRemoteDeviceBlock, b.payload)]
  | delete gx request =>
    [(setBlockStatus (sizedHeader gx request) gxDeleteRemoteBlock gxRemoteDeviceBlock,
      request.payload)]
  | ack => [(setBlockStatus newHeader gxAcknowledgeBlock gxRemoteDeviceBlock, [])]
  | result resultCode _ =>
    [({ setBlockStatus newHeader gxAcknowledgeBlock gxRemoteDeviceBlock with
      blockNdFptr := resultCode }, [])]

def messages : BlockCall L maxBlock → List Message
  | write gx b => [.block (blockStatus gx) b.payload]
  | writeBytes _ b _ _ => [.block gxSendBlock b.payload]
  | add _ b => [.block gxAddRemoteBlock b.payload]
  | change _ _ request b =>
    [.block gxChangeRemoteBlock request.payload, .block gxSendBlock b.payload]
  | delete _ request => [.block gxDeleteRemoteBlock request.payload]
  | ack => [.block gxAcknowledgeBlock []]
  | result resultCode _ => [.result resultCode]

end BlockCall

namespace BlockStream

/-- The other end reads a header and the block of one with a length, or a result block. -/
def receive (env : Environment NetAnswer) (c : Nat) (L : HeaderLayout) (maxBlock : Nat) :
    Bool → NetM TlsConnection (StreamError × Message)
  | true => do
    let (err, resultCode) ← readResultBlock env c L maxBlock
    return (err, .result resultCode)
  | false => do
    let (err, gx) ← readHeader env c L maxBlock
    if err ≠ .noError ∨ gx.blockLength = 0 then
      return (err, .block (blockStatus gx) [])
    else
      let (err, payload) ← readBlock env c maxBlock gx
      return (err, .block (blockStatus gx) payload)

def receiveAll (env : Environment NetAnswer) (c : Nat) (L : HeaderLayout) (maxBlock : Nat) :
    List Bool → NetM TlsConnection (List (StreamError × Message))
  | [] => return []
  | expected :: rest => do
    let reply ← receive env c L maxBlock expected
    let replies ← receiveAll env c L maxBlock rest
    return reply :: replies

/-- A header and the bytes that belong to it. -/
def wire (L : HeaderLayout) (p : BlockHeader × Text) : Text :=
  Text.ofBytes (L.encode p.1) ++ p.2

/-- The bytes that connection `c` has sent. -/
def sentOn (c : Nat) : List (Sigma NetAnswer) → Text
  | ⟨.send c' _ bytes, true⟩ :: tr => if c' = c then sentOn c tr ++ bytes else sentOn c tr
  | _ :: tr => sentOn c tr
  | [] => []

/-- If no call returns an error, all headers were sent with all their bytes, and the other end gets
the blocks and the result codes without an error, in whatever pieces they arrive. -/
def StreamRight (L : HeaderLayout) (maxBlock : Fin (256 ^ L.wordBytes))
    (calls : List (BlockCall L maxBlock)) : Prop :=
  ∀ (env : Environment NetAnswer) (c : Nat) (D : Dialogue NetAnswer TlsConnection),
    Ends (BlockCall.performAll env c calls) D (fun errs t => (∀ err ∈ errs, err = .noError) →
      sentOn c t.trace = sentOn c D.trace ++ (calls.flatMap fun call => call.parts).flatMap (wire L) ∧
      ∀ (c' : Nat) (t₀ : TlsConnection) (pieces : List Piece) (rest : Text),
        joined pieces = (calls.flatMap fun call => call.parts).flatMap (wire L) ++ rest →
        Ends (receiveAll (arriving c' pieces) c' L maxBlock
            ((calls.flatMap fun call => call.messages).map Message.isResult))
          ⟨{ t₀ with rbuf := [] }, []⟩
          (fun replies D' =>
            replies = (calls.flatMap fun call => call.messages).map (fun m => (.noError, m)) ∧
              D'.state.rbuf ++ outstanding c' pieces D'.trace = rest)
          fun _ => False)
      fun _ => False

/-! ## The sending end -/

section Sending

variable {env : Environment NetAnswer} {c : Nat} {L : HeaderLayout}
  {D t u : Dialogue NetAnswer TlsConnection} {err err' : StreamError} {s s' : Text}

/-- All bytes that the connection is given are sent. -/
def Accepts (env : Environment NetAnswer) (c : Nat) (D : Dialogue NetAnswer TlsConnection) : Prop :=
  D.state.isOpen = true ∧ ∀ tr secure bytes, env tr (.send c secure bytes) = true

/-- A call sends just `s`, or it returns an error, which an accepting connection does not cause. -/
def Sends (env : Environment NetAnswer) (c : Nat) (D : Dialogue NetAnswer TlsConnection) (s : Text)
    (err : StreamError) (t : Dialogue NetAnswer TlsConnection) : Prop :=
  (err = .noError ∧ sentOn c t.trace = sentOn c D.trace ++ s ∧ (Accepts env c D → Accepts env c t)) ∨
    err ≠ .noError ∧ ¬ Accepts env c D

theorem Sends.trans (h : Sends env c D s .noError t) (h' : Sends env c t s' err u) :
    Sends env c D (s ++ s') err u := by
  rcases h with ⟨-, hSent, hOpen⟩ | ⟨hErr, -⟩
  · rcases h' with ⟨hErr, hSent', hOpen'⟩ | ⟨hErr, hClosed⟩
    · refine Or.inl ⟨hErr, ?_, fun hD => hOpen' (hOpen hD)⟩
      rw [hSent', hSent, List.append_assoc]
    · exact Or.inr ⟨hErr, fun hD => hClosed (hOpen hD)⟩
  · exact absurd rfl hErr

theorem Sends.nil : Sends env c D [] .noError D :=
  Or.inl ⟨rfl, (List.append_nil _).symm, id⟩

theorem Sends.of_error (h : Sends env c D s err t) (hErr : err ≠ .noError) (s' : Text)
    (hErr' : err' ≠ .noError) : Sends env c D s' err' t := by
  rcases h with ⟨hNone, -⟩ | ⟨-, hClosed⟩
  · exact absurd hNone hErr
  · exact Or.inr ⟨hErr', hClosed⟩

theorem send_ends (bytes : Text) : Ends (TlsConnection.send env c bytes) D (fun sent t =>
    (sent = bytes.length ∧ sentOn c t.trace = sentOn c D.trace ++ bytes ∧
      (Accepts env c D → Accepts env c t)) ∨ sent = -1 ∧ ¬ Accepts env c D) fun _ => False := by
  unfold TlsConnection.send
  rw [ends_bind, ends_read, ends_ite]
  constructor
  · intro hClosed
    refine Or.inr ⟨rfl, fun hD => ?_⟩
    rw [hD.1] at hClosed
    cases hClosed
  · intro _
    rw [ends_bind, ends_ask, ends_ite]
    cases hSent : env D.trace (.send c D.state.secure bytes) with
    | true =>
      constructor
      · intro _
        refine Or.inl ⟨rfl, ?_, id⟩
        rw [sentOn, if_pos rfl]
      · intro hNot
        exact absurd rfl hNot
    | false =>
      constructor
      · nofun
      · intro _
        refine Or.inr ⟨rfl, fun hD => ?_⟩
        rw [hD.2] at hSent
        cases hSent

theorem writeHeader_ends (gx : BlockHeader) : Ends (writeHeader env c L gx) D
    (Sends env c D (Text.ofBytes (L.encode gx))) fun _ => False := by
  have hLength : (Text.ofBytes (L.encode gx)).length = L.headerSize := by
    rw [Text.length_ofBytes, L.length_encode]
  unfold writeHeader
  rw [ends_bind]
  apply (send_ends _).imp
  rintro sent t (⟨rfl, hSent, hOpen⟩ | ⟨rfl, hClosed⟩)
  · rw [if_neg (by rw [hLength]; exact not_not.mpr rfl), ends_pure]
    exact Or.inl ⟨rfl, hSent, hOpen⟩
  · rw [if_pos (by omega), ends_pure]
    exact Or.inr ⟨nofun, hClosed⟩

/-- The bytes of the block that the length converted to an `int` makes the call send. -/
def sentPart (p : BlockHeader × Text) : Text := p.2.take (asInt p.1.blockLength).toNat

theorem asInt_eq (v : Int) :
    asInt v = if v % 4294967296 < 2147483648 then v % 4294967296 else v % 4294967296 - 4294967296 :=
  rfl

theorem asInt_lt (v : Int) : asInt v < 2147483648 := by
  rw [asInt_eq]
  split <;> omega

theorem asInt_of_lt {n : Nat} (h : n < 2147483648) : asInt n = n := by
  rw [asInt_eq, if_pos (by omega)]
  omega

theorem asInt_le_self (n : Nat) : (asInt n).toNat ≤ n := by
  rw [asInt_eq]
  split <;> omega

/-- What goes out for a header and its bytes. -/
def wireSent (L : HeaderLayout) (p : BlockHeader × Text) : Text :=
  Text.ofBytes (L.encode p.1) ++ sentPart p

theorem writeBlock_ends {gx : BlockHeader} {buf : Text} (hLength : buf.length = gx.blockLength) :
    Ends (writeBlock env c L buf gx) D (Sends env c D (wireSent L (gx, buf))) fun _ => False := by
  rw [wireSent, sentPart]
  unfold writeBlock
  rw [ends_bind]
  apply (writeHeader_ends gx).imp
  intro err t hHeader
  rw [ends_ite]
  constructor
  · intro hErr
    exact hHeader.of_error hErr _ hErr
  · intro hErr
    obtain rfl : err = .noError := not_not.mp hErr
    dsimp only
    rw [ends_ite]
    constructor
    · intro hLen
      have hTake : ((buf.take (asInt gx.blockLength).toNat).length : Int) =
          asInt gx.blockLength := by
        have hLe := asInt_le_self gx.blockLength
        rw [List.length_take, hLength, Nat.min_eq_left hLe]
        omega
      rw [ends_bind]
      apply (send_ends _).imp
      rintro sent u (⟨hCount, hSent, hOpen⟩ | ⟨rfl, hClosed⟩)
      · rw [if_neg (not_not.mpr (hCount.trans hTake)), ends_pure]
        exact hHeader.trans (Or.inl ⟨rfl, hSent, hOpen⟩)
      · have hFailed : (-1 : Int) ≠ asInt gx.blockLength :=
          Int.ne_of_lt (Int.lt_trans (by decide) hLen)
        rw [if_pos hFailed, ends_pure]
        exact hHeader.trans (Or.inr ⟨nofun, hClosed⟩)
    · intro hLen
      rw [ends_pure, Int.toNat_of_nonpos (Int.not_lt.mp hLen), List.take_zero]
      exact hHeader.trans Sends.nil

theorem wireSent_empty {gx : BlockHeader} : wireSent L (gx, []) = Text.ofBytes (L.encode gx) := by
  rw [wireSent, sentPart, List.take_nil, List.append_nil]

theorem length_parts {maxBlock : Nat} (call : BlockCall L maxBlock) :
    ∀ p ∈ call.parts, p.2.length = p.1.blockLength := by
  cases call <;> simp [BlockCall.parts, BlockCall.sizedHeader, setBlockStatus, newHeader]

theorem writeBytes_eq {maxBlock : Nat} {b : Block maxBlock} {bytes : Int}
    (hLength : (bytes % 256 ^ L.wordBytes).toNat = b.payload.length) :
    writeBytes env c L b.payload bytes = writeBlock env c L b.payload
      (BlockCall.sizedHeader (setBlockStatus newHeader gxSendBlock gxRemoteDeviceBlock) b) := by
  rw [writeBytes, hLength]
  rfl

theorem perform_ends {maxBlock : Nat} (call : BlockCall L maxBlock) :
    Ends (call.perform env c) D (Sends env c D (call.parts.flatMap (wireSent L))) fun _ => False := by
  have hLength := length_parts call
  cases call with
  | write gx b =>
    rw [BlockCall.parts, List.flatMap_singleton, BlockCall.perform]
    exact writeBlock_ends (hLength _ List.mem_cons_self)
  | writeBytes bytes b _ isLength =>
    rw [BlockCall.parts, List.flatMap_singleton, BlockCall.perform, writeBytes_eq isLength]
    exact writeBlock_ends (hLength _ List.mem_cons_self)
  | add gx b =>
    rw [BlockCall.parts, List.flatMap_singleton, BlockCall.perform, addBlock]
    exact writeBlock_ends (hLength _ List.mem_cons_self)
  | delete gx request =>
    rw [BlockCall.parts, List.flatMap_singleton, BlockCall.perform, deleteBlock]
    exact writeBlock_ends (hLength _ List.mem_cons_self)
  | change gx gx' request b =>
    rw [BlockCall.parts, List.flatMap_cons, List.flatMap_singleton, BlockCall.perform, changeBlock,
      ends_bind]
    apply (writeBlock_ends (hLength _ List.mem_cons_self)).imp
    intro err t hRequest
    rw [ends_ite]
    constructor
    · intro hErr
      exact hRequest.of_error hErr _ hErr
    · intro hErr
      obtain rfl : err = .noError := not_not.mp hErr
      apply (writeBlock_ends (hLength _ (List.mem_cons_of_mem _ List.mem_cons_self))).imp
      intro err u hBlock
      exact hRequest.trans hBlock
  | ack =>
    rw [BlockCall.parts, List.flatMap_singleton, wireSent_empty, BlockCall.perform, writeAckBlock,
      ends_bind]
    apply (writeHeader_ends _).imp
    intro err t hHeader
    rw [ends_ite]
    constructor
    · intro hErr
      exact hHeader.of_error hErr _ nofun
    · intro hErr
      obtain rfl : err = .noError := not_not.mp hErr
      exact hHeader
  | result resultCode _ =>
    rw [BlockCall.parts, List.flatMap_singleton, wireSent_empty, BlockCall.perform, writeResultBlock,
      ends_bind]
    apply (writeHeader_ends _).imp
    intro err t hHeader
    rw [ends_ite]
    constructor
    · intro hErr
      exact hHeader.of_error hErr _ nofun
    · intro hErr
      obtain rfl : err = .noError := not_not.mp hErr
      exact hHeader

theorem performAll_ends {maxBlock : Nat} (calls : List (BlockCall L maxBlock)) :
    Ends (BlockCall.performAll env c calls) D (fun errs t =>
      ((∀ err ∈ errs, err = .noError) ∧ Sends env c D
        ((calls.flatMap fun call => call.parts).flatMap (wireSent L)) .noError t) ∨
      (∃ err ∈ errs, err ≠ .noError) ∧ ¬ Accepts env c D) fun _ => False := by
  induction calls generalizing D with
  | nil => exact Or.inl ⟨nofun, Sends.nil⟩
  | cons call calls ih =>
    unfold BlockCall.performAll
    rw [ends_bind]
    apply (perform_ends call).imp
    intro err t hCall
    rw [ends_bind]
    apply ih.imp
    intro errs u hCalls
    rw [ends_pure]
    rcases hCall with ⟨rfl, hSent, hOpen⟩ | ⟨hErr, hClosed⟩
    · rcases hCalls with ⟨hNone, hCalls⟩ | ⟨⟨err, hMem, hErr⟩, hClosed⟩
      · refine Or.inl ⟨?_, ?_⟩
        · rintro err (_ | ⟨_, hMem⟩)
          · rfl
          · exact hNone err hMem
        · rw [List.flatMap_cons, List.flatMap_append]
          exact Sends.trans (Or.inl ⟨rfl, hSent, hOpen⟩) hCalls
      · exact Or.inr ⟨⟨err, List.mem_cons_of_mem _ hMem, hErr⟩, fun hD => hClosed (hOpen hD)⟩
    · exact Or.inr ⟨⟨err, List.mem_cons_self, hErr⟩, hClosed⟩

end Sending

/-! ## The receiving end -/

section Receiving

variable {env : Environment NetAnswer} {c : Nat} {L : HeaderLayout} {R : Source env c}
  {maxBlock : Fin (256 ^ L.wordBytes)} {w : Text} {D : Dialogue NetAnswer TlsConnection}
  {E : Dialogue NetAnswer TlsConnection → Prop}

/-- What the other end makes of a header and its bytes. -/
structure Carries (maxBlock : Nat) (p : BlockHeader × Text) (m : Message) : Prop where
  marked : p.1.blockCheckWord = gxCheckWord
  length : p.2.length = p.1.blockLength
  fits : p.2.length ≤ maxBlock
  isBlock : ∀ control payload, m = .block control payload → control = blockStatus p.1 ∧ payload = p.2
  isResult : ∀ resultCode, m = .result resultCode → p.2 = [] ∧
    blockStatus p.1 = gxAcknowledgeBlock ∧ asInt p.1.blockNdFptr = resultCode

theorem asInt_of_fits {v : Int} (h : FitsWord 32 v) : asInt v = v := by
  obtain ⟨hLow, hHigh⟩ : -2147483648 ≤ v ∧ v < 2147483648 := h
  rw [asInt_eq]
  split <;> omega

theorem carries_parts {maxBlock : Nat} (call : BlockCall L maxBlock) :
    List.Forall₂ (Carries maxBlock) call.parts call.messages := by
  have hBlock {gx : BlockHeader} {b : Block maxBlock} {control : UInt8}
      (hMark : gx.blockCheckWord = gxCheckWord) (hLength : gx.blockLength = b.payload.length)
      (hControl : blockStatus gx = control) :
      Carries maxBlock (gx, b.payload) (.block control b.payload) := by
    refine ⟨hMark, hLength.symm, b.fits, ?_, nofun⟩
    rintro _ _ ⟨⟩
    exact ⟨hControl.symm, rfl⟩
  cases call with
  | write gx b => exact .cons (hBlock rfl rfl rfl) .nil
  | writeBytes bytes b _ _ =>
    exact .cons (hBlock rfl rfl (blockStatus_set newHeader gxSendBlock gxRemoteDeviceBlock)) .nil
  | add gx b => exact .cons (hBlock rfl rfl (blockStatus_set _ _ _)) .nil
  | delete gx request => exact .cons (hBlock rfl rfl (blockStatus_set _ _ _)) .nil
  | change gx gx' request b =>
    exact .cons (hBlock rfl rfl (blockStatus_set _ _ _))
      (.cons (hBlock rfl rfl (blockStatus_set _ _ _)) .nil)
  | ack =>
    exact .cons (hBlock (b := ⟨[], Nat.zero_le _⟩) rfl rfl (blockStatus_set _ _ _)) .nil
  | result resultCode isInt =>
    refine .cons ⟨rfl, rfl, Nat.zero_le _, nofun, ?_⟩ .nil
    rintro _ ⟨⟩
    exact ⟨rfl, blockStatus_set newHeader _ _, asInt_of_fits isInt⟩

/-- A header is read back, with the rest left. -/
theorem readHeader_left (hR : R.Final) {gx : BlockHeader} (hMark : gx.blockCheckWord = gxCheckWord)
    (hFits : gx.blockLength ≤ maxBlock) (hD : R.Left (Text.ofBytes (L.encode gx) ++ w) D) :
    Ends (readHeader env c L maxBlock) D (fun r t =>
      (r = (.noError, L.decode (L.encode gx)) ∧ (L.decode (L.encode gx)).blockLength = gx.blockLength) ∧
        R.Left w t) E := by
  have hSize : (Text.ofBytes (L.encode gx)).length = L.headerSize := by
    rw [Text.length_ofBytes, L.length_encode]
  have hLength : (L.decode (L.encode gx)).blockLength = gx.blockLength := by
    rw [L.decode_length, Nat.mod_eq_of_lt (Nat.lt_of_le_of_lt hFits maxBlock.2)]
  have hCheck : (L.decode (L.encode gx)).blockCheckWord = gxCheckWord := by
    have hRoom : gxCheckWord < 256 ^ L.wordBytes :=
      Nat.lt_of_lt_of_le (by decide) (Nat.pow_le_pow_right (by decide) L.fourBytes)
    rw [L.decode_checkWord, hMark, Nat.mod_eq_of_lt hRoom]
  unfold readHeader
  rw [ends_bind]
  apply (Source.readBytes_left hR L.headerSize hD).imp
  rintro s t ⟨rfl, hLeft⟩
  rw [List.take_left' hSize, if_neg (not_not.mpr hSize), Text.toBytes_ofBytes]
  rw [List.drop_left' hSize] at hLeft
  dsimp only
  rw [if_neg (not_not.mpr hCheck), if_neg (by omega), ends_pure]
  exact ⟨⟨rfl, hLength⟩, hLeft⟩

theorem receive_left (hR : R.Final) {p : BlockHeader × Text} {m : Message}
    (hm : Carries maxBlock p m) (hD : R.Left (wire L p ++ w) D) :
    Ends (receive env c L maxBlock m.isResult) D (fun r t => r = (.noError, m) ∧ R.Left w t) E := by
  obtain ⟨hMark, hLength, hFits, hBlock, hResult⟩ := hm
  rw [wire, List.append_assoc] at hD
  rw [hLength] at hFits
  cases m with
  | result resultCode =>
    obtain ⟨hNone, hControl, hCode⟩ := hResult resultCode rfl
    rw [hNone, List.nil_append] at hD
    rw [Message.isResult, receive, readResultBlock, ends_bind, ends_bind]
    apply (readHeader_left hR hMark hFits hD).imp
    rintro _ t ⟨⟨rfl, -⟩, hLeft⟩
    dsimp only
    rw [if_neg (by rw [blockStatus_decode, hControl]; simp), ends_pure, ends_pure, L.asInt_decode, hCode]
    exact ⟨rfl, hLeft⟩
  | block control payload =>
    obtain ⟨rfl, rfl⟩ := hBlock control payload rfl
    rw [Message.isResult, receive, ends_bind]
    apply (readHeader_left hR hMark hFits hD).imp
    rintro _ t ⟨⟨rfl, hDecoded⟩, hLeft⟩
    dsimp only
    rw [ends_ite, blockStatus_decode, hDecoded]
    constructor
    · rintro (hNot | hEmpty)
      · exact absurd rfl hNot
      · have hNil : p.2 = [] := List.length_eq_zero_iff.mp (hLength.trans hEmpty)
        rw [hNil] at hLeft ⊢
        exact ⟨rfl, hLeft⟩
    · intro hSome
      obtain ⟨-, hSome⟩ := not_or.mp hSome
      rw [ends_bind, readBlock, hDecoded, if_neg (by omega), if_neg hSome, ends_bind]
      apply (Source.readBytes_left hR _ hLeft).imp
      intro s u hRead
      rw [List.take_left' hLength, List.drop_left' hLength] at hRead
      rw [hRead.1, if_neg (by rw [hLength]; exact not_not.mpr rfl), ends_pure, ends_pure]
      exact ⟨rfl, hRead.2⟩

theorem receiveAll_left (hR : R.Final) {parts : List (BlockHeader × Text)} {messages : List Message}
    (hAll : List.Forall₂ (Carries maxBlock) parts messages)
    (hD : R.Left (parts.flatMap (wire L) ++ w) D) :
    Ends (receiveAll env c L maxBlock (messages.map Message.isResult)) D (fun replies t =>
      replies = messages.map (fun m => (.noError, m)) ∧ R.Left w t) E := by
  induction hAll generalizing D with
  | nil => exact ⟨rfl, hD⟩
  | cons hm _ ih =>
    rw [List.flatMap_cons, List.append_assoc] at hD
    rw [List.map_cons, receiveAll, ends_bind]
    apply (receive_left hR hm hD).imp
    rintro _ t ⟨rfl, hLeft⟩
    rw [ends_bind]
    apply (ih hLeft).imp
    rintro _ u ⟨rfl, hLeft⟩
    exact ⟨rfl, hLeft⟩

end Receiving

/-! ## Whole sequences -/

section Sequences

variable {L : HeaderLayout}

theorem sentPart_eq {p : BlockHeader × Text} (hLength : p.2.length = p.1.blockLength)
    (hInt : p.1.blockLength < 2147483648) : sentPart p = p.2 := by
  rw [sentPart, asInt_of_lt hInt, Int.toNat_natCast]
  exact List.take_of_length_le (Nat.le_of_eq hLength)

theorem wireSent_flatMap {parts : List (BlockHeader × Text)}
    (hLength : ∀ p ∈ parts, p.2.length = p.1.blockLength)
    (hInt : ∀ p ∈ parts, p.1.blockLength < 2147483648) :
    parts.flatMap (wireSent L) = parts.flatMap (wire L) := by
  apply List.flatMap_congr
  intro p hp
  rw [wireSent, sentPart_eq (hLength p hp) (hInt p hp), wire]

theorem length_wireSent_le (p : BlockHeader × Text) : (wireSent L p).length ≤ (wire L p).length := by
  rw [wireSent, wire, List.length_append, List.length_append, sentPart, List.length_take]
  omega

theorem length_wireSent_flatMap_le (parts : List (BlockHeader × Text)) :
    (parts.flatMap (wireSent L)).length ≤ (parts.flatMap (wire L)).length := by
  induction parts with
  | nil => rw [List.flatMap_nil, List.flatMap_nil]
  | cons p parts ih =>
    have hHead := length_wireSent_le (L := L) p
    rw [List.flatMap_cons, List.flatMap_cons, List.length_append, List.length_append]
    omega

/-- A block too long for an `int` loses bytes. -/
theorem length_wireSent_lt {p : BlockHeader × Text} (hLength : p.2.length = p.1.blockLength)
    (hLong : ¬ p.1.blockLength < 2147483648) : (wireSent L p).length < (wire L p).length := by
  have hLt := asInt_lt p.1.blockLength
  rw [wireSent, wire, List.length_append, List.length_append, sentPart, List.length_take]
  omega

theorem lengths_of_wireSent_eq {parts : List (BlockHeader × Text)}
    (hLength : ∀ p ∈ parts, p.2.length = p.1.blockLength)
    (hEq : (parts.flatMap (wireSent L)).length = (parts.flatMap (wire L)).length) :
    ∀ p ∈ parts, p.1.blockLength < 2147483648 := by
  induction parts with
  | nil => exact nofun
  | cons p parts ih =>
    rw [List.flatMap_cons, List.flatMap_cons, List.length_append, List.length_append] at hEq
    have hHead := length_wireSent_le (L := L) p
    have hRest := length_wireSent_flatMap_le (L := L) parts
    intro q hq
    rcases List.mem_cons.mp hq with rfl | hq
    · by_contra hLong
      have hLt := length_wireSent_lt (L := L) (hLength q List.mem_cons_self) hLong
      omega
    · exact ih (fun q hq => hLength q (List.mem_cons_of_mem p hq)) (by omega) q hq

variable {maxBlock : Fin (256 ^ L.wordBytes)}

theorem length_allParts (calls : List (BlockCall L maxBlock)) :
    ∀ p ∈ calls.flatMap fun call => call.parts, p.2.length = p.1.blockLength := by
  intro p hp
  obtain ⟨call, -, hp⟩ := List.mem_flatMap.mp hp
  exact length_parts call p hp

theorem carries_allParts (calls : List (BlockCall L maxBlock)) :
    List.Forall₂ (Carries maxBlock) (calls.flatMap fun call => call.parts)
      (calls.flatMap fun call => call.messages) := by
  induction calls with
  | nil => exact .nil
  | cons call calls ih => exact List.rel_append (carries_parts call) ih

/-- Over a connection that sends all it is given the calls return no error, so that the bytes of a
long block are missed. -/
theorem StreamRight.lengths {calls : List (BlockCall L maxBlock)} (hRight : StreamRight L maxBlock calls) :
    ∀ p ∈ calls.flatMap fun call => call.parts, p.1.blockLength < 2147483648 := by
  have hAccepts : Accepts (arriving 0 []) 0 ⟨{ isOpen := true }, []⟩ := ⟨rfl, fun _ _ _ => rfl⟩
  have hRun := hRight (arriving 0 []) 0 ⟨{ isOpen := true }, []⟩
  have hEnds : Ends (BlockCall.performAll (arriving 0 []) 0 calls) ⟨{ isOpen := true }, []⟩ _ _ :=
    performAll_ends calls
  apply lengths_of_wireSent_eq (L := L) (length_allParts calls)
  unfold Ends at hRun hEnds
  split at hRun
  · rename_i errs t hOk
    rw [hOk] at hEnds
    rcases hEnds with ⟨hNone, ⟨-, hSent, -⟩ | ⟨hErr, -⟩⟩ | ⟨-, hClosed⟩
    · rw [← List.append_cancel_left (hSent.symm.trans (hRun hNone).1)]
    · exact absurd rfl hErr
    · exact absurd hAccepts hClosed
  · exact hRun.elim

theorem streamRight_of_lengths {calls : List (BlockCall L maxBlock)}
    (hInt : ∀ p ∈ calls.flatMap fun call => call.parts, p.1.blockLength < 2147483648) :
    StreamRight L maxBlock calls := by
  intro env c D
  apply (performAll_ends calls).imp
  rintro errs t hEnds hNone
  rcases hEnds with ⟨-, ⟨-, hSent, -⟩ | ⟨hErr, -⟩⟩ | ⟨⟨err, hMem, hErr⟩, -⟩
  · rw [wireSent_flatMap (length_allParts calls) hInt] at hSent
    constructor
    · exact hSent
    · intro c' t₀ pieces rest hPieces
      have hLeft : (inPieces c' pieces).Left (joined pieces) ⟨{ t₀ with rbuf := [] }, []⟩ :=
        Or.inl ⟨joined pieces, rfl, rfl⟩
      rw [hPieces] at hLeft
      apply (receiveAll_left (inPieces_final c' pieces) (carries_allParts calls) hLeft).imp
      rintro replies u ⟨hReplies, hRest⟩
      exact ⟨hReplies, left_inPieces hRest⟩
  · exact absurd rfl hErr
  · exact absurd (hNone err hMem) hErr

/-- The blocks and result codes arrive as they were sent exactly if the length of every block is an
`int`. -/
theorem stream_right_iff (calls : List (BlockCall L maxBlock)) : StreamRight L maxBlock calls ↔
    ∀ call ∈ calls, ∀ p ∈ call.parts, p.1.blockLength < 2147483648 := by
  constructor
  · intro hRight call hCall p hp
    exact hRight.lengths p (List.mem_flatMap.mpr ⟨call, hCall, hp⟩)
  · intro hInt
    apply streamRight_of_lengths
    intro p hp
    obtain ⟨call, hCall, hp⟩ := List.mem_flatMap.mp hp
    exact hInt call hCall p hp

end Sequences

/-- The portable classes with addresses of 64 bits. -/
def portableLayout : HeaderLayout where
  wordBytes := 4
  addressBytes := 8
  padding := 0
  bigEndian := false
  addressBits := 64
  fourBytes := by decide
  fourAddressBytes := by decide
  intFits := by decide

/-- A block of 2 GB is added: its header goes out, none of its bytes does, and the call returns no
error. -/
theorem addBlock_misses : ¬ StreamRight portableLayout ⟨4294967295, by decide⟩
    [.add newHeader ⟨List.replicate 2147483648 'x', by rw [List.length_replicate]; decide⟩] := by
  intro hRight
  have hInt := hRight.lengths _ (List.mem_flatMap.mpr ⟨_, List.mem_cons_self, List.mem_cons_self⟩)
  change (List.replicate 2147483648 'x').length < 2147483648 at hInt
  rw [List.length_replicate] at hInt
  exact absurd hInt (by decide)

end BlockStream

end DataReel
