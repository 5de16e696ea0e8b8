import Syscoin.Lib.Proc
import Syscoin.Lib.Stream
import Syscoin.Primitives.Base58

/-!
# `Network.Messages` — messages on a connection

A message is a header of 24 bytes and a payload. `BeginMessage` and `EndMessage` put messages into a queue, and
`SocketSendData` hands them to the socket, which takes as much as it likes. On the other side `ReceiveMsgBytes` gets the
bytes as the socket has them, and puts the messages together again.

What `send` returns is an argument: a list with one entry for each call, where the call after the last entry is refused.
The socket takes no more than it is given. What it has taken is kept in `sent`.

An assertion that fails is an error with the text of the assertion.
-/

namespace Syscoin

open Lib

/-! ## `CMessageHeader` -/

/-- `pchMessageStart`, as `LoadBlockIndex` sets it. -/
def pchMessageStart : Network → Bytes
  | .main => [0xdc, 0xec, 0xec, 0xdc]
  | .test => [0xac, 0xdc, 0xdc, 0xac]
  | .cake => [0xf9, 0xf1, 0xf1, 0xf9]

def COMMAND_SIZE : Nat := 12
def MESSAGE_SIZE_OFFSET : Nat := 16
def CHECKSUM_OFFSET : Nat := 20
def HEADER_SIZE : Nat := 24

structure CMessageHeader where
  pchMessageStart : Bytes
  pchCommand : Bytes
  nMessageSize : Nat
  nChecksum : Nat
deriving DecidableEq, Repr

/-- `strncpy`: up to the first zero, and filled up with zeros. -/
def strncpy (src : Bytes) (n : Nat) : Bytes :=
  let head := (src.takeWhile (· ≠ 0)).take n
  head ++ List.replicate (n - head.length) 0

/-- `memcpy` into a buffer, from `pos` on. -/
def overwrite (buf : Bytes) (pos : Nat) (src : Bytes) : Bytes := buf.take pos ++ src ++ buf.drop (pos + src.length)

namespace CMessageHeader

/-- `CMessageHeader()` -/
def null (net : Network) : CMessageHeader :=
  ⟨Syscoin.pchMessageStart net, overwrite (List.replicate COMMAND_SIZE 0) 1 [1], 2 ^ 32 - 1, 0⟩

/-- `CMessageHeader(pszCommand, nMessageSizeIn)` -/
def ofCommand (net : Network) (pszCommand : Bytes) (nMessageSizeIn : Nat) : CMessageHeader :=
  ⟨Syscoin.pchMessageStart net, strncpy pszCommand COMMAND_SIZE, nMessageSizeIn, 0⟩

def serialize (hdr : CMessageHeader) : Bytes :=
  hdr.pchMessageStart ++ hdr.pchCommand ++ toLE 4 hdr.nMessageSize ++ toLE 4 hdr.nChecksum

/-- `hdrbuf >> hdr` -/
def unserialize (hdrbuf : Bytes) : CMessageHeader where
  pchMessageStart := hdrbuf.take 4
  pchCommand := (hdrbuf.drop 4).take COMMAND_SIZE
  nMessageSize := fromLE ((hdrbuf.drop MESSAGE_SIZE_OFFSET).take 4)
  nChecksum := fromLE ((hdrbuf.drop CHECKSUM_OFFSET).take 4)

/-- **`GetCommand`** -/
def getCommand (hdr : CMessageHeader) : Bytes :=
  if hdr.pchCommand.getD (COMMAND_SIZE - 1) 0 = 0 then hdr.pchCommand.takeWhile (· ≠ 0) else hdr.pchCommand

/-- "Check the command string for errors" -/
def commandOk : Bytes → Bool
  | [] => true
  | c :: p => if c = 0 then (c :: p).all (· = 0) else if c < 0x20 ∨ 0x7e < c then false else commandOk p

/-- **`IsValid`** -/
def isValid (net : Network) (hdr : CMessageHeader) : Bool :=
  hdr.pchMessageStart = Syscoin.pchMessageStart net ∧ commandOk hdr.pchCommand ∧ hdr.nMessageSize ≤ Field.MAX_SIZE

end CMessageHeader

/-! ## Receiving -/

structure CNetMessage where
  /-- Parsing header (false) or data (true). -/
  in_data : Bool
  hdrbuf : Bytes
  hdr : CMessageHeader
  nHdrPos : Nat
  vRecv : Bytes
  nDataPos : Nat
deriving DecidableEq, Repr

namespace CNetMessage

/-- `CNetMessage()` -/
def new (net : Network) : CNetMessage where
  in_data := false
  hdrbuf := List.replicate HEADER_SIZE 0
  hdr := CMessageHeader.null net
  nHdrPos := 0
  vRecv := []
  nDataPos := 0

def complete (msg : CNetMessage) : Bool := msg.in_data = true ∧ msg.hdr.nMessageSize = msg.nDataPos

/-- The end of `readHeader`, once the header is complete. A header that announces too much is rejected. -/
def openData (msg : CNetMessage) : Except CNetMessage CNetMessage :=
  let msg := { msg with hdr := CMessageHeader.unserialize msg.hdrbuf }
  if Field.MAX_SIZE < msg.hdr.nMessageSize then .error msg
  else .ok { msg with in_data := true, vRecv := List.replicate msg.hdr.nMessageSize 0 }

/-- **`readHeader`**. The header is read as soon as it is complete. -/
def readHeader (msg : CNetMessage) (pch : Bytes) : Except CNetMessage (Nat × CNetMessage) :=
  let nCopy := min (HEADER_SIZE - msg.nHdrPos) pch.length
  let msg := { msg with
    hdrbuf := overwrite msg.hdrbuf msg.nHdrPos (pch.take nCopy)
    nHdrPos := msg.nHdrPos + nCopy }
  if msg.nHdrPos < HEADER_SIZE then .ok (nCopy, msg)
  else msg.openData.map fun msg => (nCopy, msg)

/-- **`readData`** -/
def readData (msg : CNetMessage) (pch : Bytes) : Except CNetMessage (Nat × CNetMessage) :=
  let nCopy := min (msg.hdr.nMessageSize - msg.nDataPos) pch.length
  .ok (nCopy, { msg with
    vRecv := overwrite msg.vRecv msg.nDataPos (pch.take nCopy)
    nDataPos := msg.nDataPos + nCopy })

/-- "absorb network data" -/
def read (msg : CNetMessage) (pch : Bytes) : Except CNetMessage (Nat × CNetMessage) :=
  if msg.in_data then msg.readData pch else msg.readHeader pch

end CNetMessage

/-- "get current incomplete message, or create a new one", with the messages in front of it. -/
def currentMessage (net : Network) (vRecvMsg : List CNetMessage) : List CNetMessage × CNetMessage :=
  match vRecvMsg.getLast? with
  | none => (vRecvMsg, .new net)
  | some msg => if msg.complete then (vRecvMsg, .new net) else (vRecvMsg.dropLast, msg)

/-- One pass of the loop. -/
def absorbBytes (net : Network) (vRecvMsg : List CNetMessage) (pch : Bytes) :
    Except (List CNetMessage) (Nat × List CNetMessage) :=
  let (front, msg) := currentMessage net vRecvMsg
  match msg.read pch with
  | .error msg => .error (front ++ [msg])
  | .ok (handled, msg) => .ok (handled, front ++ [msg])

/-- **`ReceiveMsgBytes`**. A rejection is an error with the messages as they are left. -/
def receiveMsgBytes (net : Network) (vRecvMsg : List CNetMessage) (pch : Bytes) :
    Except (List CNetMessage) (List CNetMessage) :=
  feed (absorbBytes net) pch.length vRecvMsg pch

/-- The bytes of a connection, as `recv` has them. The socket is closed at the first rejection. -/
def receiveAll (net : Network) (chunks : List Bytes) : Except (List CNetMessage) (List CNetMessage) :=
  chunks.foldlM (receiveMsgBytes net) []

/-! ## Sending -/

/-- What `CNode` keeps to send. -/
structure Sender where
  ssSend : Bytes
  vSendMsg : List Bytes
  nSendSize : UInt64
  nSendOffset : Nat
  sent : Bytes

namespace Sender

def init : Sender := ⟨[], [], 0, 0, []⟩

/-- The loop of `SocketSendData`, over the messages from `it` on; the ones before it are erased at the end. -/
def sendLoop : List Bytes → List Int → Sender → Except String Sender
  | [], _, s => .ok { s with vSendMsg := [] }
  | data :: rest, sends, s => do
    require (s.nSendOffset < data.length) "data.size() > pnode->nSendOffset"
    let nBytes := min (sends.headD (-1)) (data.length - s.nSendOffset : Nat)
    if 0 < nBytes then
      let nSendOffset := s.nSendOffset + nBytes.toNat
      let sent := s.sent ++ (data.drop s.nSendOffset).take nBytes.toNat
      if nSendOffset = data.length then
        sendLoop rest sends.tail
          { s with nSendOffset := 0, nSendSize := s.nSendSize - UInt64.ofNat data.length, sent := sent }
      else
        -- "could not send full message; stop sending more"
        .ok { s with vSendMsg := data :: rest, nSendOffset := nSendOffset, sent := sent }
    else
      -- "couldn't send anything at all"
      .ok { s with vSendMsg := data :: rest }

/-- **`SocketSendData`** -/
def socketSendData (sends : List Int) (s : Sender) : Except String Sender := do
  let s ← sendLoop s.vSendMsg sends s
  if s.vSendMsg = [] then
    require (s.nSendOffset = 0) "pnode->nSendOffset == 0"
    require (s.nSendSize = 0) "pnode->nSendSize == 0"
  return s

/-- **`BeginMessage`** -/
def beginMessage (net : Network) (pszCommand : Bytes) (s : Sender) : Except String Sender := do
  require (s.ssSend.length = 0) "ssSend.size() == 0"
  return { s with ssSend := s.ssSend ++ (CMessageHeader.ofCommand net pszCommand 0).serialize }

/-- `ssSend << …` -/
def append (payload : Bytes) (s : Sender) : Sender := { s with ssSend := s.ssSend ++ payload }

def abortMessage (s : Sender) : Sender := { s with ssSend := [] }

/-- **`EndMessage`**. `fDrop` is the outcome of `-dropmessagestest`. -/
def endMessage (Hash : Bytes → Uint256) (fDrop : Bool) (sends : List Int) (s : Sender) : Except String Sender :=
  if fDrop then .ok s.abortMessage
  else if s.ssSend.length = 0 then .ok s
  else do
    let ssSend := overwrite s.ssSend MESSAGE_SIZE_OFFSET (toLE 4 (s.ssSend.length - HEADER_SIZE))
    require (CHECKSUM_OFFSET + 4 ≤ ssSend.length) "ssSend.size () >= CMessageHeader::CHECKSUM_OFFSET + sizeof(nChecksum)"
    let data := overwrite ssSend CHECKSUM_OFFSET (checksum Hash (ssSend.drop HEADER_SIZE))
    let s' := { s with ssSend := [], vSendMsg := s.vSendMsg ++ [data], nSendSize := s.nSendSize + UInt64.ofNat data.length }
    -- "If write queue empty, attempt optimistic write"
    if s.vSendMsg = [] then s'.socketSendData sends else .ok s'

/-- `PushMessage` -/
def pushMessage (net : Network) (Hash : Bytes → Uint256) (pszCommand payload : Bytes) (fDrop : Bool) (sends : List Int)
    (s : Sender) : Except String Sender := do
  let s ← s.beginMessage net pszCommand
  (s.append payload).endMessage Hash fDrop sends

end Sender

/-- A message that may be sent. -/
structure NetMessage where
  command : Bytes
  payload : Bytes
  command_le : command.length ≤ COMMAND_SIZE
  printable : ∀ c ∈ command, 0x20 ≤ c ∧ c ≤ 0x7e
  payload_le : payload.length ≤ Field.MAX_SIZE

/-- What happens to the sending side: a message is pushed, or the socket takes more. -/
inductive SendAction where
  | push (message : NetMessage) (fDrop : Bool) (sends : List Int)
  | send (sends : List Int)

namespace SendAction

def perform (net : Network) (Hash : Bytes → Uint256) (s : Sender) : SendAction → Except String Sender
  | push message fDrop sends => s.pushMessage net Hash message.command message.payload fDrop sends
  | send sends => s.socketSendData sends

/-- The message an action puts into the queue. -/
def queued : SendAction → List NetMessage
  | push message false _ => [message]
  | _ => []

end SendAction

end Syscoin
