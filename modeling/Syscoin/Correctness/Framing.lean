import Mathlib.Data.List.Forall2
import Mathlib.Data.List.GetD
import Mathlib.Data.List.TakeWhile
import Syscoin.Lib.Access
import Syscoin.Network.Messages

/-!
# `Correctness.Framing` — messages survive the way they are cut

The sender may be stopped in the middle of a message, and the receiver may get the bytes in any pieces. Neither matters:
what the socket has taken is a prefix of the messages one behind the other, no assertion fails, and the receiver ends up
with the messages, whatever the pieces are.

The receiver is a consumer in the sense of `Lib.Stream`: a pass over some bytes may be cut after the first one
(`splits_absorbBytes`). That alone makes it independent of the pieces, for any bytes. To see what it makes of the bytes of
messages, the pieces are then chosen as headers and payloads.
-/

namespace Syscoin

open Lib

/-! ## Buffers -/

section Buffers

variable {buf src : Bytes} {pos : Nat}

theorem length_overwrite (h : pos + src.length ≤ buf.length) : (overwrite buf pos src).length = buf.length := by
  unfold overwrite
  rw [List.length_append, List.length_append, List.length_take, List.length_drop]
  omega

/-- A copy may be made in two. -/
theorem overwrite_cons {b : UInt8} (h : pos < buf.length) :
    overwrite buf pos (b :: src) = overwrite (overwrite buf pos [b]) (pos + 1) src := by
  have hhead : (buf.take pos ++ [b]).length = pos + 1 := by
    rw [List.length_append, List.length_take, List.length_singleton]
    omega
  have hfirst : overwrite buf pos [b] = (buf.take pos ++ [b]) ++ buf.drop (pos + 1) := rfl
  have hrest : (overwrite buf pos [b]).drop (pos + 1 + src.length) = buf.drop (pos + (b :: src).length) := by
    rw [← List.drop_drop, hfirst, List.drop_left' hhead, List.drop_drop, List.length_cons]
    congr 1
    omega
  have htake : (overwrite buf pos [b]).take (pos + 1) = buf.take pos ++ [b] := by
    rw [hfirst, List.take_left' hhead]
  show buf.take pos ++ (b :: src) ++ buf.drop (pos + (b :: src).length) =
    (overwrite buf pos [b]).take (pos + 1) ++ src ++ (overwrite buf pos [b]).drop (pos + 1 + src.length)
  rw [hrest, htake, List.append_assoc (buf.take pos) [b] src]
  rfl

/-- A copy over the whole buffer. -/
theorem overwrite_all (h : src.length = buf.length) : overwrite buf 0 src = src := by
  unfold overwrite
  rw [List.take_zero, List.nil_append, Nat.zero_add, h, List.drop_length, List.append_nil]

/-- A copy over a part in the middle. -/
theorem overwrite_middle {front part back : Bytes} (hfront : front.length = pos) (hpart : part.length = src.length) :
    overwrite (front ++ (part ++ back)) pos src = front ++ (src ++ back) := by
  unfold overwrite
  rw [← List.drop_drop, List.take_left' hfront, List.drop_left' hfront, List.drop_left' hpart, List.append_assoc]

end Buffers

/-! ## The receiver -/

namespace CNetMessage

/-- A message under construction: a header that is not complete, or data that fit into what was announced. -/
structure Wf (msg : CNetMessage) : Prop where
  hdrbuf : msg.hdrbuf.length = HEADER_SIZE
  header : msg.in_data = false → msg.nHdrPos < HEADER_SIZE ∧ msg.nDataPos = 0
  data : msg.in_data = true → msg.nDataPos ≤ msg.hdr.nMessageSize ∧ msg.vRecv.length = msg.hdr.nMessageSize

variable {net : Network} {msg msg' : CNetMessage} {b c : UInt8} {pch : Bytes} {n : Nat}

theorem wf_new : (new net).Wf where
  hdrbuf := List.length_replicate
  header := fun _ => ⟨Nat.zero_lt_succ _, rfl⟩
  data := fun h => Bool.noConfusion h

theorem not_complete_new : (new net).complete = false := rfl

/-- How many bytes the message takes before something changes. -/
def room (msg : CNetMessage) : Nat :=
  if msg.in_data then msg.hdr.nMessageSize - msg.nDataPos else HEADER_SIZE - msg.nHdrPos

/-- The message with some bytes copied into the buffer it is filling. -/
def copy (msg : CNetMessage) (src : Bytes) : CNetMessage :=
  if msg.in_data then
    { msg with vRecv := overwrite msg.vRecv msg.nDataPos src, nDataPos := msg.nDataPos + src.length }
  else
    { msg with hdrbuf := overwrite msg.hdrbuf msg.nHdrPos src, nHdrPos := msg.nHdrPos + src.length }

theorem copy_data (h : msg.in_data = true) (src : Bytes) : msg.copy src =
    { msg with vRecv := overwrite msg.vRecv msg.nDataPos src, nDataPos := msg.nDataPos + src.length } := if_pos h

theorem copy_header (h : msg.in_data = false) (src : Bytes) : msg.copy src =
    { msg with hdrbuf := overwrite msg.hdrbuf msg.nHdrPos src, nHdrPos := msg.nHdrPos + src.length } :=
  if_neg (by rw [h]; exact Bool.false_ne_true)

theorem room_data (h : msg.in_data = true) : msg.room = msg.hdr.nMessageSize - msg.nDataPos := if_pos h

theorem room_header (h : msg.in_data = false) : msg.room = HEADER_SIZE - msg.nHdrPos :=
  if_neg (by rw [h]; exact Bool.false_ne_true)

/-- What follows a copy. -/
def close (msg : CNetMessage) : Except CNetMessage CNetMessage :=
  if msg.in_data = true ∨ msg.nHdrPos < HEADER_SIZE then .ok msg else msg.openData

/-- Header and data are read alike: as much as there is room for is copied. -/
theorem read_eq (msg : CNetMessage) (pch : Bytes) :
    msg.read pch = (msg.copy (pch.take msg.room)).close.map fun msg' => ((pch.take msg.room).length, msg') := by
  have htake : ∀ k, pch.take (min k pch.length) = pch.take k := fun k => List.take_eq_take_min.symm
  -- the two readers differ in the buffer they fill, and only the header has something to close
  unfold read
  cases hdata : msg.in_data with
  | true =>
    rw [if_pos rfl, copy_data hdata, room_data hdata]
    unfold readData close
    dsimp only
    rw [htake, List.length_take, if_pos (.inl hdata)]
    rfl
  | false =>
    have hclosed : ¬ msg.in_data = true := by rw [hdata]; exact Bool.false_ne_true
    rw [if_neg Bool.false_ne_true, copy_header hdata, room_header hdata]
    unfold readHeader close
    dsimp only
    rw [htake, List.length_take]
    by_cases hopen : msg.nHdrPos + min (HEADER_SIZE - msg.nHdrPos) pch.length < HEADER_SIZE
    · rw [if_pos hopen, if_pos (.inr hopen)]
      rfl
    · rw [if_neg hopen, if_neg (not_or.mpr ⟨hclosed, hopen⟩)]

theorem in_data_copy (src : Bytes) : (msg.copy src).in_data = msg.in_data := by
  unfold copy
  split
  · rfl
  · rfl

theorem room_copy : (msg.copy [b]).room = msg.room - 1 := by
  cases hdata : msg.in_data with
  | true =>
    rw [room_data ((in_data_copy [b]).trans hdata), copy_data hdata, room_data hdata]
    exact (Nat.sub_sub _ _ _).symm
  | false =>
    rw [room_header ((in_data_copy [b]).trans hdata), copy_header hdata, room_header hdata]
    exact (Nat.sub_sub _ _ _).symm

/-- A message that is not complete has room. -/
theorem Wf.room_pos (h : msg.Wf) (hopen : msg.complete = false) : 1 ≤ msg.room := by
  cases hdata : msg.in_data with
  | true =>
    have hle := (h.data hdata).1
    have hne : msg.hdr.nMessageSize ≠ msg.nDataPos := by
      intro heq
      have hcomplete : msg.complete = true := decide_eq_true ⟨hdata, heq⟩
      rw [hopen] at hcomplete
      cases hcomplete
    rw [room_data hdata]
    omega
  | false =>
    have hlt := (h.header hdata).1
    rw [room_header hdata]
    omega

/-- A message with room is not complete. -/
theorem not_complete_of_room (h : 1 ≤ msg.room) : msg.complete = false := by
  refine decide_eq_false ?_
  rintro ⟨hdata, heq⟩
  rw [room_data hdata] at h
  omega

/-- Bytes may be copied one after the other. -/
theorem Wf.copy_cons (h : msg.Wf) (hroom : 1 ≤ msg.room) (src : Bytes) :
    msg.copy (b :: src) = (msg.copy [b]).copy src := by
  cases hdata : msg.in_data with
  | true =>
    have hpos : msg.nDataPos < msg.vRecv.length := by
      rw [room_data hdata] at hroom
      rw [(h.data hdata).2]
      omega
    have hcount : msg.nDataPos + (b :: src).length = msg.nDataPos + 1 + src.length := by
      rw [List.length_cons]
      omega
    rw [copy_data ((in_data_copy [b]).trans hdata), copy_data hdata, copy_data hdata, overwrite_cons hpos, hcount]
    rfl
  | false =>
    have hpos : msg.nHdrPos < msg.hdrbuf.length := by
      rw [room_header hdata] at hroom
      rw [h.hdrbuf]
      omega
    have hcount : msg.nHdrPos + (b :: src).length = msg.nHdrPos + 1 + src.length := by
      rw [List.length_cons]
      omega
    rw [copy_header ((in_data_copy [b]).trans hdata), copy_header hdata, copy_header hdata, overwrite_cons hpos, hcount]
    rfl

/-- Nothing changes as long as there is room. -/
theorem close_of_room (h : 1 ≤ msg.room) : msg.close = .ok msg := by
  refine if_pos ?_
  cases hdata : msg.in_data with
  | true => exact .inl rfl
  | false =>
    rw [room_header hdata] at h
    exact .inr (by omega)

/-- One byte more, and what follows it. -/
theorem Wf.close_copy (h : msg.Wf) (hroom : 1 ≤ msg.room) (hclose : (msg.copy [b]).close = .ok msg') : msg'.Wf := by
  cases hdata : msg.in_data with
  | true =>
    obtain ⟨hle, hlength⟩ := h.data hdata
    rw [room_data hdata] at hroom
    rw [copy_data hdata, close, if_pos (.inl hdata)] at hclose
    cases hclose
    refine ⟨h.hdrbuf, fun hfalse => ?_, fun _ => ⟨?_, ?_⟩⟩
    · cases hdata.symm.trans hfalse
    · show msg.nDataPos + 1 ≤ msg.hdr.nMessageSize
      omega
    · rw [← hlength]
      exact length_overwrite (by rw [List.length_singleton, hlength]; omega)
  | false =>
    obtain ⟨-, hzero⟩ := h.header hdata
    rw [room_header hdata] at hroom
    have hbuf : (overwrite msg.hdrbuf msg.nHdrPos [b]).length = HEADER_SIZE := by
      rw [← h.hdrbuf]
      exact length_overwrite (by rw [List.length_singleton, h.hdrbuf]; omega)
    rw [copy_header hdata, close] at hclose
    split at hclose
    · -- the header is not complete yet
      rename_i hstill
      cases hclose
      refine ⟨hbuf, fun _ => ⟨hstill.resolve_left ?_, hzero⟩, fun htrue => ?_⟩
      · intro htrue
        cases hdata.symm.trans htrue
      · cases hdata.symm.trans htrue
    · -- it is now: what it announces is checked, and room is made for the data
      unfold openData at hclose
      dsimp only at hclose
      split at hclose
      · cases hclose
      · cases hclose
        have hdataPos : msg.nDataPos ≤ (CMessageHeader.unserialize (overwrite msg.hdrbuf msg.nHdrPos [b])).nMessageSize := by
          rw [hzero]
          exact Nat.zero_le _
        exact ⟨hbuf, fun hfalse => Bool.noConfusion hfalse, fun _ => ⟨hdataPos, List.length_replicate⟩⟩

/-- **Reading may be cut after the first byte.** -/
theorem Wf.read_one (h : msg.Wf) (hopen : msg.complete = false) (hread : msg.read [b] = .ok (n, msg')) :
    n = 1 ∧ msg'.Wf := by
  have hroom := h.room_pos hopen
  have htake : [b].take msg.room = [b] := List.take_of_length_le hroom
  rw [read_eq, htake] at hread
  cases hclose : (msg.copy [b]).close with
  | error e =>
    rw [hclose] at hread
    cases hread
  | ok msg₁ =>
    rw [hclose] at hread
    cases hread
    exact ⟨rfl, h.close_copy hroom hclose⟩

theorem Wf.read_split (h : msg.Wf) (b : UInt8) (pch : Bytes) (hopen : msg.complete = false) :
    msg.read (b :: pch) = msg.read [b] ∨
      ∃ msg', msg.read [b] = .ok (1, msg') ∧ msg'.complete = false ∧
        msg.read (b :: pch) = (msg'.read pch).map fun r => (r.1 + 1, r.2) := by
  have hroom := h.room_pos hopen
  have htake : [b].take msg.room = [b] := List.take_of_length_le hroom
  obtain ⟨k, hk⟩ : ∃ k, msg.room = k + 1 := Nat.exists_eq_add_one_of_ne_zero (by omega)
  by_cases hlast : k = 0
  · -- the byte is all there is room for
    refine .inl ?_
    rw [read_eq, read_eq, htake, hk, hlast]
    rfl
  · have hroom' : (msg.copy [b]).room = k := by
      rw [room_copy, hk]
      rfl
    have hstill : 1 ≤ (msg.copy [b]).room := by omega
    refine .inr ⟨msg.copy [b], ?_, not_complete_of_room hstill, ?_⟩
    · rw [read_eq, htake, close_of_room hstill]
      rfl
    · rw [read_eq, read_eq, hroom', hk, List.take_succ_cons, h.copy_cons hroom]
      cases ((msg.copy [b]).copy (pch.take k)).close with
      | error e => rfl
      | ok msg₁ => rfl

end CNetMessage

section Receiver

variable {net : Network} {vRecvMsg front : List CNetMessage} {msg : CNetMessage}

/-- The last message is well formed. -/
def RecvWf (vRecvMsg : List CNetMessage) : Prop := ∀ msg ∈ vRecvMsg.getLast?, msg.Wf

theorem recvWf_append : RecvWf (front ++ [msg]) ↔ msg.Wf := by
  unfold RecvWf
  rw [List.getLast?_concat]
  exact ⟨fun h => h msg rfl, fun h msg' hmsg => (Option.some.inj hmsg) ▸ h⟩

/-- The message that is worked on is never complete. -/
theorem currentMessage_spec (net : Network) (h : RecvWf vRecvMsg) :
    (currentMessage net vRecvMsg).2.Wf ∧ (currentMessage net vRecvMsg).2.complete = false := by
  unfold currentMessage
  cases hlast : vRecvMsg.getLast? with
  | none => exact ⟨CNetMessage.wf_new, CNetMessage.not_complete_new⟩
  | some msg =>
    dsimp only
    cases hcomplete : msg.complete with
    | true => exact ⟨CNetMessage.wf_new, CNetMessage.not_complete_new⟩
    | false => exact ⟨h msg hlast, hcomplete⟩

theorem currentMessage_append (h : msg.complete = false) : currentMessage net (front ++ [msg]) = (front, msg) := by
  unfold currentMessage
  rw [List.getLast?_concat]
  dsimp only
  rw [h, List.dropLast_concat]
  rfl

theorem absorbBytes_eq (net : Network) (vRecvMsg : List CNetMessage) (pch : Bytes) :
    absorbBytes net vRecvMsg pch =
      match (currentMessage net vRecvMsg).2.read pch with
      | .error msg => .error ((currentMessage net vRecvMsg).1 ++ [msg])
      | .ok (handled, msg) => .ok (handled, (currentMessage net vRecvMsg).1 ++ [msg]) := rfl

/-- **The receiver may be fed byte by byte.** -/
theorem splits_absorbBytes (net : Network) : Splits (absorbBytes net) RecvWf where
  one := by
    intro vRecvMsg b n vRecvMsg' h habsorb
    obtain ⟨hwf, hopen⟩ := currentMessage_spec net h
    rw [absorbBytes_eq] at habsorb
    cases hread : (currentMessage net vRecvMsg).2.read [b] with
    | error msg =>
      rw [hread] at habsorb
      cases habsorb
    | ok r =>
      obtain ⟨k, msg⟩ := r
      rw [hread] at habsorb
      cases habsorb
      obtain ⟨rfl, hmsg⟩ := hwf.read_one hopen hread
      exact ⟨rfl, recvWf_append.mpr hmsg⟩
  split := by
    intro vRecvMsg b c input h
    obtain ⟨hwf, hopen⟩ := currentMessage_spec net h
    rcases hwf.read_split b (c :: input) hopen with hone | ⟨msg', hone, hopen', htwo⟩
    · refine .inl ?_
      rw [absorbBytes_eq, absorbBytes_eq, hone]
    · refine .inr ⟨(currentMessage net vRecvMsg).1 ++ [msg'], ?_, ?_⟩
      · rw [absorbBytes_eq, hone]
      · rw [absorbBytes_eq, htwo, absorbBytes_eq, currentMessage_append hopen']
        cases msg'.read (c :: input) with
        | error e => rfl
        | ok r => rfl

theorem recvWf_nil : RecvWf [] := by
  intro msg hmsg
  cases hmsg

/-- **The chunks play no part.** -/
theorem receiveAll_eq (net : Network) (chunks : List Bytes) :
    receiveAll net chunks = chunks.flatten.foldlM (feedOne (absorbBytes net)) [] :=
  (splits_absorbBytes net).foldlM_feed recvWf_nil

end Receiver

/-! ## The bytes of a message -/

/-- A message as it should arrive. -/
structure Delivered (net : Network) (Hash : Bytes → Uint256) (message : NetMessage) (msg : CNetMessage) : Prop where
  complete : msg.complete = true
  valid : msg.hdr.isValid net = true
  command : msg.hdr.getCommand = message.command
  payload : msg.vRecv = message.payload
  size : msg.hdr.nMessageSize = message.payload.length
  checksum : msg.hdr.nChecksum = fromLE (checksum Hash msg.vRecv)

theorem length_pchMessageStart (net : Network) : (pchMessageStart net).length = 4 := by cases net <;> rfl

theorem length_strncpy (src : Bytes) (n : Nat) : (strncpy src n).length = n := by
  unfold strncpy
  rw [List.length_append, List.length_replicate, List.length_take]
  omega

namespace NetMessage

variable (net : Network) (Hash : Bytes → Uint256) (message : NetMessage)

/-- The header with the size and the checksum filled in. -/
def header : CMessageHeader :=
  ⟨pchMessageStart net, strncpy message.command COMMAND_SIZE, message.payload.length,
    fromLE (checksum Hash message.payload)⟩

/-- The header on the wire. -/
def headerBytes : Bytes :=
  pchMessageStart net ++
    (strncpy message.command COMMAND_SIZE ++ (toLE 4 message.payload.length ++ checksum Hash message.payload))

/-- The message on the wire. -/
def wire : Bytes := message.headerBytes net Hash ++ message.payload

/-- The message behind its header. -/
def opened : CNetMessage where
  in_data := true
  hdrbuf := message.headerBytes net Hash
  hdr := message.header net Hash
  nHdrPos := HEADER_SIZE
  vRecv := List.replicate message.payload.length 0
  nDataPos := 0

def received : CNetMessage :=
  { message.opened net Hash with vRecv := message.payload, nDataPos := message.payload.length }

/-- What stands before the size. -/
def front : Bytes := pchMessageStart net ++ strncpy message.command COMMAND_SIZE

theorem length_front : (message.front net).length = MESSAGE_SIZE_OFFSET := by
  unfold front
  rw [List.length_append, length_pchMessageStart, length_strncpy]
  rfl

theorem wire_eq : message.wire net Hash =
    (message.front net ++ toLE 4 message.payload.length) ++ (checksum Hash message.payload ++ message.payload) := by
  unfold wire headerBytes front
  simp only [List.append_assoc]

theorem serialize_append : (CMessageHeader.ofCommand net message.command 0).serialize ++ message.payload =
    message.front net ++ (toLE 4 0 ++ (toLE 4 0 ++ message.payload)) := by
  unfold CMessageHeader.serialize CMessageHeader.ofCommand front
  simp only [List.append_assoc]

theorem length_headerBytes : (message.headerBytes net Hash).length = HEADER_SIZE := by
  unfold headerBytes checksum
  rw [List.length_append, List.length_append, List.length_append, length_pchMessageStart, length_strncpy, length_toLE,
    length_toLE]
  rfl

theorem length_wire_pos : 0 < (message.wire net Hash).length := by
  unfold wire
  rw [List.length_append, length_headerBytes]
  exact Nat.lt_of_lt_of_le (by decide) (Nat.le_add_right HEADER_SIZE _)

theorem unserialize_headerBytes :
    CMessageHeader.unserialize (message.headerBytes net Hash) = message.header net Hash := by
  have hstart := length_pchMessageStart net
  have hcommand := length_strncpy message.command COMMAND_SIZE
  have hsize := length_toLE 4 message.payload.length
  have hchecksum : (checksum Hash message.payload).length = 4 := length_toLE 4 _
  have hlt : message.payload.length < 256 ^ 4 := Nat.lt_of_le_of_lt message.payload_le (by decide)
  have hfront : (pchMessageStart net ++ strncpy message.command COMMAND_SIZE).length = MESSAGE_SIZE_OFFSET :=
    message.length_front net
  have hfront' : (pchMessageStart net ++ strncpy message.command COMMAND_SIZE ++ toLE 4 message.payload.length).length =
      CHECKSUM_OFFSET := by
    rw [List.length_append, hfront, hsize]
    rfl
  unfold CMessageHeader.unserialize headerBytes header
  congr 1
  · exact List.take_left' hstart
  · rw [List.drop_left' hstart, List.take_left' hcommand]
  · rw [← List.append_assoc, List.drop_left' hfront, List.take_left' hsize, fromLE_toLE, Nat.mod_eq_of_lt hlt]
  · rw [← List.append_assoc, ← List.append_assoc, List.drop_left' hfront', List.take_of_length_le (Nat.le_of_eq hchecksum)]

/-- A command ends at the first zero behind it. -/
theorem takeWhile_command (k : Nat) :
    (message.command ++ List.replicate k 0).takeWhile (· ≠ 0) = message.command := by
  have hnonzero : ∀ c ∈ message.command, decide (c ≠ 0) = true := by
    intro c hc
    refine decide_eq_true ?_
    rintro rfl
    exact absurd (message.printable 0 hc).1 (by decide)
  rw [List.takeWhile_append_of_pos hnonzero]
  cases k with
  | zero => rw [List.replicate_zero, List.takeWhile_nil, List.append_nil]
  | succ k => rw [List.replicate_succ, List.takeWhile_cons_of_neg (by decide), List.append_nil]

/-- A command fills its field up to the zeros. -/
theorem strncpy_command : strncpy message.command COMMAND_SIZE =
    message.command ++ List.replicate (COMMAND_SIZE - message.command.length) 0 := by
  have hself : message.command.takeWhile (· ≠ 0) = message.command := by
    simpa using message.takeWhile_command 0
  unfold strncpy
  rw [hself, List.take_of_length_le message.command_le]

theorem commandOk_append {command : Bytes} (h : ∀ c ∈ command, 0x20 ≤ c ∧ c ≤ 0x7e) (k : Nat) :
    CMessageHeader.commandOk (command ++ List.replicate k 0) = true := by
  induction command with
  | nil =>
    cases k with
    | zero => rfl
    | succ k =>
      show CMessageHeader.commandOk (0 :: List.replicate k 0) = true
      rw [CMessageHeader.commandOk, if_pos rfl, List.all_eq_true]
      intro c hc
      rcases List.mem_cons.mp hc with rfl | hc
      · rfl
      · rw [List.eq_of_mem_replicate hc]
        rfl
  | cons c command ih =>
    obtain ⟨⟨hlow, hhigh⟩, htail⟩ := List.forall_mem_cons.mp h
    have hne : c ≠ 0 := by
      rintro rfl
      exact absurd hlow (by decide)
    rw [List.cons_append, CMessageHeader.commandOk, if_neg hne,
      if_neg (not_or.mpr ⟨UInt8.not_lt.mpr hlow, UInt8.not_lt.mpr hhigh⟩)]
    exact ih htail

theorem getCommand_header : (message.header net Hash).getCommand = message.command := by
  have hle := message.command_le
  unfold CMessageHeader.getCommand header
  dsimp only
  rw [message.strncpy_command]
  split
  · exact message.takeWhile_command _
  · rename_i hlast
    -- no zero at the end: the command fills its field
    have hfull : COMMAND_SIZE - message.command.length = 0 := by
      have hsize : COMMAND_SIZE = 12 := rfl
      by_contra hroom
      apply hlast
      rw [List.getD_append_right _ _ _ _ (by omega), List.getD_replicate _ (by omega)]
    rw [hfull, List.replicate_zero, List.append_nil]

/-- A new message takes the header. -/
theorem read_headerBytes :
    (CNetMessage.new net).read (message.headerBytes net Hash) = .ok (HEADER_SIZE, message.opened net Hash) := by
  have hlength := message.length_headerBytes net Hash
  have hroom : (CNetMessage.new net).room = HEADER_SIZE := rfl
  let full : CNetMessage := ⟨false, message.headerBytes net Hash, CMessageHeader.null net, HEADER_SIZE, [], 0⟩
  have hcopy : (CNetMessage.new net).copy (message.headerBytes net Hash) = full := by
    have hall : overwrite (CNetMessage.new net).hdrbuf 0 (message.headerBytes net Hash) = message.headerBytes net Hash :=
      overwrite_all hlength
    rw [CNetMessage.copy_header rfl, hlength]
    show (⟨false, overwrite (CNetMessage.new net).hdrbuf 0 (message.headerBytes net Hash), CMessageHeader.null net,
      0 + HEADER_SIZE, [], 0⟩ : CNetMessage) = full
    rw [hall, Nat.zero_add]
  have hclose : full.close = .ok (message.opened net Hash) := by
    have hfull : ¬ (full.in_data = true ∨ full.nHdrPos < HEADER_SIZE) :=
      not_or.mpr ⟨Bool.false_ne_true, Nat.lt_irrefl _⟩
    have hunserialize : CMessageHeader.unserialize full.hdrbuf = message.header net Hash :=
      message.unserialize_headerBytes net Hash
    have hsize : ¬ Field.MAX_SIZE < (message.header net Hash).nMessageSize := Nat.not_lt.mpr message.payload_le
    unfold CNetMessage.close CNetMessage.openData
    rw [if_neg hfull, hunserialize]
    dsimp only
    rw [if_neg hsize]
    rfl
  rw [CNetMessage.read_eq, hroom, List.take_of_length_le (Nat.le_of_eq hlength), hcopy, hclose, hlength]
  rfl

/-- The message behind its header takes the payload. -/
theorem read_payload :
    (message.opened net Hash).read message.payload = .ok (message.payload.length, message.received net Hash) := by
  have hroom : (message.opened net Hash).room = message.payload.length := rfl
  have hcopy : (message.opened net Hash).copy message.payload = message.received net Hash := by
    have hall : overwrite (List.replicate message.payload.length 0) 0 message.payload = message.payload :=
      overwrite_all List.length_replicate.symm
    rw [CNetMessage.copy_data rfl]
    show ({ message.opened net Hash with
      vRecv := overwrite (List.replicate message.payload.length 0) 0 message.payload,
      nDataPos := 0 + message.payload.length } : CNetMessage) = _
    rw [hall, Nat.zero_add]
    rfl
  have hclose : (message.received net Hash).close = .ok (message.received net Hash) := if_pos (.inl rfl)
  rw [CNetMessage.read_eq, hroom, List.take_length, hcopy, hclose]
  rfl

/-- **What is made of a message is that message.** -/
theorem delivered_received : Delivered net Hash message (message.received net Hash) where
  complete := decide_eq_true ⟨rfl, rfl⟩
  valid := by
    refine decide_eq_true ⟨rfl, ?_, message.payload_le⟩
    show CMessageHeader.commandOk (strncpy message.command COMMAND_SIZE) = true
    rw [message.strncpy_command]
    exact commandOk_append message.printable _
  command := message.getCommand_header net Hash
  payload := rfl
  size := rfl
  checksum := rfl

end NetMessage

section Received

variable (net : Network) (Hash : Bytes → Uint256) {vRecvMsg : List CNetMessage}

/-- All messages so far are complete. -/
def AllComplete (vRecvMsg : List CNetMessage) : Prop := ∀ msg ∈ vRecvMsg.getLast?, msg.complete = true

theorem currentMessage_new (h : AllComplete vRecvMsg) : currentMessage net vRecvMsg = (vRecvMsg, .new net) := by
  unfold currentMessage
  cases hlast : vRecvMsg.getLast? with
  | none => rfl
  | some msg =>
    dsimp only
    rw [h msg hlast, if_pos rfl]

/-- What one pass takes whole. -/
theorem receiveMsgBytes_of_read {net : Network} {pch : Bytes} {msg : CNetMessage} (hpch : pch ≠ [])
    (h : (currentMessage net vRecvMsg).2.read pch = .ok (pch.length, msg)) :
    receiveMsgBytes net vRecvMsg pch = .ok ((currentMessage net vRecvMsg).1 ++ [msg]) := by
  cases pch with
  | nil => exact absurd rfl hpch
  | cons b pch =>
    unfold receiveMsgBytes
    rw [List.length_cons, feed, absorbBytes_eq, h]
    dsimp only
    rw [List.drop_length]
    cases pch with
    | nil => rfl
    | cons c pch => rfl

/-- **A message, header and payload one after the other.** -/
theorem receive_message (h : AllComplete vRecvMsg) (message : NetMessage) :
    (receiveMsgBytes net vRecvMsg (message.headerBytes net Hash) >>= fun vRecvMsg =>
      receiveMsgBytes net vRecvMsg message.payload) = .ok (vRecvMsg ++ [message.received net Hash]) := by
  have hlength := message.length_headerBytes net Hash
  have hheader : receiveMsgBytes net vRecvMsg (message.headerBytes net Hash) =
      .ok (vRecvMsg ++ [message.opened net Hash]) := by
    rw [receiveMsgBytes_of_read, currentMessage_new net h]
    · intro hnil
      rw [hnil] at hlength
      cases hlength
    · rw [currentMessage_new net h, hlength]
      exact message.read_headerBytes net Hash
  rw [hheader]
  show receiveMsgBytes net (vRecvMsg ++ [message.opened net Hash]) message.payload = _
  by_cases hempty : message.payload = []
  · -- the message is complete with its header
    have hreceived : message.received net Hash = message.opened net Hash := by
      unfold NetMessage.received NetMessage.opened
      rw [hempty]
      rfl
    rw [hreceived, hempty]
    rfl
  · have hopen : (message.opened net Hash).complete = false := by
      refine decide_eq_false ?_
      rintro ⟨-, hzero⟩
      exact hempty (List.eq_nil_of_length_eq_zero hzero)
    rw [receiveMsgBytes_of_read hempty, currentMessage_append hopen]
    rw [currentMessage_append hopen]
    exact message.read_payload net Hash

/-- The bytes of messages one behind the other. -/
theorem receive_messages (h : AllComplete vRecvMsg) (messages : List NetMessage) :
    (messages.flatMap fun message => [message.headerBytes net Hash, message.payload]).foldlM (receiveMsgBytes net)
      vRecvMsg = .ok (vRecvMsg ++ messages.map fun message => message.received net Hash) := by
  induction messages generalizing vRecvMsg with
  | nil =>
    rw [List.map_nil, List.append_nil]
    rfl
  | cons message messages ih =>
    have hnext : AllComplete (vRecvMsg ++ [message.received net Hash]) := by
      intro msg hmsg
      rw [List.getLast?_concat] at hmsg
      cases hmsg
      exact (message.delivered_received net Hash).complete
    rw [List.flatMap_cons, List.foldlM_append]
    have hfirst := receive_message net Hash h message
    show (receiveMsgBytes net vRecvMsg (message.headerBytes net Hash) >>= fun vRecvMsg =>
      receiveMsgBytes net vRecvMsg message.payload >>= pure) >>= _ = _
    simp only [bind_pure]
    rw [hfirst]
    show List.foldlM (receiveMsgBytes net) (vRecvMsg ++ [message.received net Hash]) _ = _
    rw [ih hnext, List.map_cons, List.append_assoc]
    rfl

/-- **Whatever the pieces are, the messages arrive.** -/
theorem receiveAll_messages (messages : List NetMessage) {chunks : List Bytes}
    (h : chunks.flatten = messages.flatMap (NetMessage.wire net Hash)) :
    receiveAll net chunks = .ok (messages.map fun message => message.received net Hash) := by
  -- the pieces are as good as any others: take each message in two, its header and its payload
  have hpieces : (messages.flatMap fun message => [message.headerBytes net Hash, message.payload]).flatten =
      chunks.flatten := by
    rw [h, List.flatten_eq_flatMap, List.flatMap_assoc]
    congr 1
    funext message
    show message.headerBytes net Hash ++ (message.payload ++ []) = _
    rw [List.append_nil]
    rfl
  rw [receiveAll_eq, ← hpieces, ← receiveAll_eq]
  unfold receiveAll
  rw [receive_messages net Hash (fun _ hmsg => by cases hmsg), List.nil_append]

end Received

/-! ## The sender -/

namespace Sender

variable {net : Network} {Hash : Bytes → Uint256} {s : Sender} {queue : List Bytes} {wire : Bytes}

/-- What `SocketSendData` relies on, for the messages from `it` on: the offset is inside the first of them, the size is
    their size, and what the socket has taken is all of `wire` but what is left of them. -/
structure Queued (queue : List Bytes) (s : Sender) (wire : Bytes) : Prop where
  pos : ∀ data ∈ queue, 0 < data.length
  offset_nil : queue = [] → s.nSendOffset = 0
  offset_lt : ∀ data rest, queue = data :: rest → s.nSendOffset < data.length
  size : s.nSendSize = UInt64.ofNat queue.flatten.length
  sent : s.sent ++ queue.flatten.drop s.nSendOffset = wire

/-- Between calls nothing is under construction. -/
structure Inv (s : Sender) (wire : Bytes) : Prop where
  ssSend : s.ssSend = []
  queued : Queued s.vSendMsg s wire

theorem inv_init : Inv init [] where
  ssSend := rfl
  queued := ⟨List.forall_mem_nil _, fun _ => rfl, fun _ _ h => absurd h.symm (List.cons_ne_nil _ _), rfl, rfl⟩

/-- **The loop**: whatever the socket takes, no assertion fails, and nothing is lost or sent twice. -/
theorem sendLoop_ok (h : Queued queue s wire) (sends : List Int) :
    ∃ s', sendLoop queue sends s = .ok s' ∧ s'.ssSend = s.ssSend ∧ Queued s'.vSendMsg s' wire := by
  induction queue generalizing s sends with
  | nil => exact ⟨{ s with vSendMsg := [] }, rfl, rfl, h.pos, h.offset_nil, h.offset_lt, h.size, h.sent⟩
  | cons data rest ih =>
    have hoffset := h.offset_lt data rest rfl
    obtain ⟨hdata, hrest⟩ := List.forall_mem_cons.mp h.pos
    have hwire : s.sent ++ (data.drop s.nSendOffset ++ rest.flatten) = wire := by
      have hsent := h.sent
      rw [List.flatten_cons, List.drop_append_of_le_length (Nat.le_of_lt hoffset)] at hsent
      exact hsent
    rw [sendLoop, require_bind_of hoffset]
    show ∃ s', (if 0 < min (sends.headD (-1)) ((data.length - s.nSendOffset : Nat) : Int) then _ else _) = _ ∧ _
    generalize hn : min (sends.headD (-1)) ((data.length - s.nSendOffset : Nat) : Int) = nBytes
    by_cases htaken : 0 < nBytes
    · rw [if_pos htaken]
      by_cases hfull : s.nSendOffset + nBytes.toNat = data.length
      · -- the whole message is gone
        have hall : (data.drop s.nSendOffset).take nBytes.toNat = data.drop s.nSendOffset := by
          refine List.take_of_length_le ?_
          rw [List.length_drop]
          omega
        rw [if_pos hfull, hall]
        refine ih ⟨hrest, fun _ => rfl, ?_, ?_, ?_⟩ sends.tail
        · intro data' rest' heq
          exact hrest data' (by rw [heq]; exact List.mem_cons_self)
        · -- the size wraps around like the sum it is, so that subtracting takes the message off again
          show s.nSendSize - UInt64.ofNat data.length = UInt64.ofNat rest.flatten.length
          rw [h.size, List.flatten_cons, List.length_append, UInt64.ofNat_add, UInt64.add_comm, UInt64.add_sub_cancel]
        · show (s.sent ++ data.drop s.nSendOffset) ++ rest.flatten.drop 0 = wire
          rw [List.drop_zero, List.append_assoc]
          exact hwire
      · -- the socket took a part of it
        rw [if_neg hfull]
        refine ⟨_, rfl, rfl, h.pos, fun hnil => (List.cons_ne_nil _ _ hnil).elim, ?_, h.size, ?_⟩
        · intro data' rest' heq
          cases heq
          show s.nSendOffset + nBytes.toNat < data.length
          omega
        · show (s.sent ++ (data.drop s.nSendOffset).take nBytes.toNat) ++
            (data :: rest).flatten.drop (s.nSendOffset + nBytes.toNat) = wire
          rw [List.flatten_cons, List.drop_append_of_le_length (by omega), ← List.drop_drop, List.append_assoc,
            ← List.append_assoc ((data.drop s.nSendOffset).take nBytes.toNat), List.take_append_drop]
          exact hwire
    · -- the socket took nothing, or refused: the loop ends where it is
      rw [if_neg htaken]
      exact ⟨_, rfl, rfl, h.pos, h.offset_nil, h.offset_lt, h.size, h.sent⟩

/-- **`SocketSendData`**: its assertions hold. -/
theorem socketSendData_ok (h : Queued s.vSendMsg s wire) (sends : List Int) :
    ∃ s', s.socketSendData sends = .ok s' ∧ s'.ssSend = s.ssSend ∧ Queued s'.vSendMsg s' wire := by
  obtain ⟨s', hloop, hssSend, hqueued⟩ := sendLoop_ok h sends
  refine ⟨s', ?_, hssSend, hqueued⟩
  unfold socketSendData
  rw [hloop]
  show (if s'.vSendMsg = [] then _ else _) = _
  by_cases hempty : s'.vSendMsg = []
  · have hoffset := hqueued.offset_nil hempty
    have hsize : s'.nSendSize = 0 := by
      rw [hqueued.size, hempty]
      rfl
    rw [if_pos hempty, require_bind_of hoffset, require_bind_of hsize]
    rfl
  · rw [if_neg hempty]
    rfl

/-- A message at the end of the queue. -/
def enqueue (s : Sender) (data : Bytes) : Sender :=
  { s with ssSend := [], vSendMsg := s.vSendMsg ++ [data], nSendSize := s.nSendSize + UInt64.ofNat data.length }

theorem Queued.enqueue {data : Bytes} (h : Queued s.vSendMsg s wire) (hdata : 0 < data.length) :
    Queued (s.enqueue data).vSendMsg (s.enqueue data) (wire ++ data) := by
  have hflatten : (s.vSendMsg ++ [data]).flatten = s.vSendMsg.flatten ++ data := by
    rw [List.flatten_append]
    show _ ++ (data ++ []) = _
    rw [List.append_nil]
  -- the offset is inside the first message, so that what is new comes behind what is left
  have hoffset : s.nSendOffset ≤ s.vSendMsg.flatten.length := by
    cases hqueue : s.vSendMsg with
    | nil =>
      rw [h.offset_nil hqueue]
      exact Nat.zero_le _
    | cons first rest =>
      have hlt := h.offset_lt first rest hqueue
      rw [List.flatten_cons, List.length_append]
      omega
  refine ⟨?_, ?_, ?_, ?_, ?_⟩
  · intro data' hmem
    rcases List.mem_append.mp hmem with hmem | hmem
    · exact h.pos data' hmem
    · rw [List.mem_singleton.mp hmem]
      exact hdata
  · intro hnil
    exact (List.append_ne_nil_of_right_ne_nil _ (List.cons_ne_nil _ _) hnil).elim
  · intro first rest heq
    have heq : s.vSendMsg ++ [data] = first :: rest := heq
    cases hqueue : s.vSendMsg with
    | nil =>
      rw [hqueue] at heq
      cases heq
      show s.nSendOffset < data.length
      rw [h.offset_nil hqueue]
      exact hdata
    | cons first' rest' =>
      rw [hqueue] at heq
      cases heq
      exact h.offset_lt _ rest' hqueue
  · show s.nSendSize + UInt64.ofNat data.length = UInt64.ofNat (s.vSendMsg ++ [data]).flatten.length
    rw [hflatten, List.length_append, UInt64.ofNat_add, ← h.size]
  · show s.sent ++ (s.vSendMsg ++ [data]).flatten.drop s.nSendOffset = wire ++ data
    rw [hflatten, List.drop_append_of_le_length hoffset, ← List.append_assoc, h.sent]

/-- What `EndMessage` writes into the header. -/
theorem fill_header (net : Network) (Hash : Bytes → Uint256) (message : NetMessage) :
    let ssSend := (CMessageHeader.ofCommand net message.command 0).serialize ++ message.payload
    let sized := overwrite ssSend MESSAGE_SIZE_OFFSET (toLE 4 (ssSend.length - HEADER_SIZE))
    ssSend.length ≠ 0 ∧ CHECKSUM_OFFSET + 4 ≤ sized.length ∧
      overwrite sized CHECKSUM_OFFSET (checksum Hash (sized.drop HEADER_SIZE)) = message.wire net Hash := by
  intro ssSend sized
  have hfront := message.length_front net
  have hsizes : MESSAGE_SIZE_OFFSET = 16 ∧ CHECKSUM_OFFSET = 20 ∧ HEADER_SIZE = 24 := ⟨rfl, rfl, rfl⟩
  have hbegun : ssSend = message.front net ++ (toLE 4 0 ++ (toLE 4 0 ++ message.payload)) :=
    message.serialize_append net
  have hlength : ssSend.length = HEADER_SIZE + message.payload.length := by
    rw [hbegun, List.length_append, List.length_append, List.length_append, hfront, length_toLE]
    omega
  have hfront' : (message.front net ++ toLE 4 message.payload.length).length = CHECKSUM_OFFSET := by
    rw [List.length_append, hfront, length_toLE]
    rfl
  have hsized : sized = (message.front net ++ toLE 4 message.payload.length) ++ (toLE 4 0 ++ message.payload) := by
    show overwrite ssSend MESSAGE_SIZE_OFFSET (toLE 4 (ssSend.length - HEADER_SIZE)) = _
    rw [hlength, Nat.add_sub_cancel_left, hbegun, overwrite_middle hfront (by rw [length_toLE, length_toLE]),
      List.append_assoc]
  have hpayload : sized.drop HEADER_SIZE = message.payload := by
    rw [hsized, ← List.append_assoc]
    refine List.drop_left' ?_
    rw [List.length_append, hfront', length_toLE]
    rfl
  refine ⟨by omega, ?_, ?_⟩
  · rw [hsized, List.length_append, hfront', List.length_append, length_toLE]
    omega
  · rw [hpayload, hsized, overwrite_middle hfront' (by rw [checksum, length_toLE, length_toLE]), message.wire_eq]

/-- **A message is pushed**, or dropped: the assertions hold, and its bytes are at the end. -/
theorem pushMessage_ok (net : Network) (Hash : Bytes → Uint256) (h : s.Inv wire) (message : NetMessage) (fDrop : Bool) (sends : List Int) :
    ∃ s', s.pushMessage net Hash message.command message.payload fDrop sends = .ok s' ∧
      s'.Inv (wire ++ if fDrop then [] else message.wire net Hash) := by
  obtain ⟨hnonempty, hassert, hwire⟩ := fill_header net Hash message
  have hbegin : s.beginMessage net message.command =
      .ok { s with ssSend := (CMessageHeader.ofCommand net message.command 0).serialize } := by
    have hempty : s.ssSend.length = 0 := by
      rw [h.ssSend]
      rfl
    unfold beginMessage
    rw [require_bind_of hempty, h.ssSend]
    rfl
  unfold pushMessage
  rw [hbegin]
  show ∃ s', endMessage Hash fDrop sends
    { s with ssSend := (CMessageHeader.ofCommand net message.command 0).serialize ++ message.payload } = .ok s' ∧ _
  unfold endMessage
  cases fDrop with
  | true =>
    -- `-dropmessagestest`
    refine ⟨_, rfl, rfl, ?_⟩
    rw [if_pos rfl, List.append_nil]
    exact ⟨h.queued.pos, h.queued.offset_nil, h.queued.offset_lt, h.queued.size, h.queued.sent⟩
  | false =>
    have hqueued := h.queued.enqueue (message.length_wire_pos net Hash)
    rw [if_neg Bool.false_ne_true, if_neg hnonempty, if_neg Bool.false_ne_true]
    dsimp only
    rw [require_bind_of hassert, hwire]
    show ∃ s', (if s.vSendMsg = [] then (s.enqueue (message.wire net Hash)).socketSendData sends
      else .ok (s.enqueue (message.wire net Hash))) = .ok s' ∧ s'.Inv (wire ++ message.wire net Hash)
    by_cases hempty : s.vSendMsg = []
    · -- the optimistic write
      obtain ⟨s', hsend, hssSend, hqueued'⟩ := socketSendData_ok hqueued sends
      rw [if_pos hempty]
      exact ⟨s', hsend, hssSend, hqueued'⟩
    · rw [if_neg hempty]
      exact ⟨_, rfl, rfl, hqueued⟩

end Sender

/-! ## Both sides -/

section Run

variable (net : Network) (Hash : Bytes → Uint256)

/-- The messages that actions put into the queue, on the wire. -/
def wires (actions : List SendAction) : Bytes := (actions.flatMap SendAction.queued).flatMap (NetMessage.wire net Hash)

/-- One action keeps the invariant and adds its message. -/
theorem perform_ok {s : Sender} {wire : Bytes} (h : s.Inv wire) (action : SendAction) :
    ∃ s', action.perform net Hash s = .ok s' ∧ s'.Inv (wire ++ wires net Hash [action]) := by
  have hqueued : wires net Hash [action] = action.queued.flatMap (NetMessage.wire net Hash) := by
    unfold wires
    rw [List.flatMap_singleton]
  rw [hqueued]
  cases action with
  | push message fDrop sends =>
    obtain ⟨s', hpush, hinv⟩ := Sender.pushMessage_ok net Hash h message fDrop sends
    refine ⟨s', hpush, ?_⟩
    cases fDrop with
    | true => exact hinv
    | false =>
      show s'.Inv (wire ++ (message.wire net Hash ++ []))
      rw [List.append_nil]
      exact hinv
  | send sends =>
    obtain ⟨s', hsend, hssSend, hsent⟩ := Sender.socketSendData_ok h.queued sends
    refine ⟨s', hsend, hssSend.trans h.ssSend, ?_⟩
    show Sender.Queued s'.vSendMsg s' (wire ++ [])
    rw [List.append_nil]
    exact hsent

/-- **No run of the sender fails.** -/
theorem perform_all_ok {s : Sender} {wire : Bytes} (h : s.Inv wire) (actions : List SendAction) :
    ∃ s', actions.foldlM (fun s action => action.perform net Hash s) s = .ok s' ∧
      s'.Inv (wire ++ wires net Hash actions) := by
  induction actions generalizing s wire with
  | nil =>
    refine ⟨s, rfl, ?_⟩
    show s.Inv (wire ++ [])
    rw [List.append_nil]
    exact h
  | cons action actions ih =>
    obtain ⟨s₁, hfirst, hinv₁⟩ := perform_ok net Hash h action
    obtain ⟨s', hrest, hinv⟩ := ih hinv₁
    refine ⟨s', ?_, ?_⟩
    · rw [List.foldlM_cons, hfirst]
      exact hrest
    · have hwires : wires net Hash (action :: actions) = wires net Hash [action] ++ wires net Hash actions := by
        unfold wires
        rw [List.flatMap_cons, List.flatMap_append, List.flatMap_singleton]
      rw [hwires, ← List.append_assoc]
      exact hinv

/-- What was taken by the socket, and what was put into the queue. -/
theorem Sender.Inv.sent_front {s : Sender} {wire : Bytes} (h : s.Inv wire) :
    s.sent <+: wire ∧ (s.vSendMsg = [] → s.sent = wire) := by
  refine ⟨⟨_, h.queued.sent⟩, ?_⟩
  intro hempty
  have hsent := h.queued.sent
  rw [hempty, List.flatten_nil, List.drop_nil, List.append_nil] at hsent
  exact hsent

end Run

/-- **Framing is independent of the pieces.** For all messages, whatever the socket takes at each call: no assertion fails,
    the bytes taken are a prefix of the messages, all of them once the queue is empty; and when all bytes have arrived, in
    whatever pieces, the receiver has exactly these messages. For any bytes it does not matter how they are cut. -/
theorem messages_arrive_as_sent (net : Network) (Hash : Bytes → Uint256) :
    (∀ actions : List SendAction, ∃ s,
      actions.foldlM (fun s action => action.perform net Hash s) Sender.init = .ok s ∧
      s.sent <+: wires net Hash actions ∧ (s.vSendMsg = [] → s.sent = wires net Hash actions) ∧
      ∀ chunks : List Bytes, chunks.flatten = wires net Hash actions →
        ∃ vRecvMsg, receiveAll net chunks = .ok vRecvMsg ∧
          List.Forall₂ (Delivered net Hash) (actions.flatMap SendAction.queued) vRecvMsg) ∧
    ∀ chunks chunks' : List Bytes, chunks.flatten = chunks'.flatten → receiveAll net chunks = receiveAll net chunks' := by
  constructor
  · intro actions
    obtain ⟨s, hrun, hinv⟩ := perform_all_ok net Hash Sender.inv_init actions
    rw [List.nil_append] at hinv
    obtain ⟨hfront, hall⟩ := hinv.sent_front
    refine ⟨s, hrun, hfront, hall, ?_⟩
    intro chunks hchunks
    refine ⟨_, receiveAll_messages net Hash _ hchunks, ?_⟩
    rw [List.forall₂_map_right_iff]
    exact List.forall₂_same.mpr fun message _ => message.delivered_received net Hash
  · intro chunks chunks' h
    rw [receiveAll_eq, receiveAll_eq, h]

/-! ## Two messages -/

namespace Handshake

def version : NetMessage := ⟨[0x76, 0x65, 0x72, 0x73, 0x69, 0x6f, 0x6e], [1, 2, 3, 4, 5], by decide, by decide +kernel, by decide⟩

/-- Without a payload. -/
def verack : NetMessage := ⟨[0x76, 0x65, 0x72, 0x61, 0x63, 0x6b], [], by decide, by decide +kernel, by decide⟩

/-- The socket takes ten bytes of the first message, then nothing, and at last the rest. -/
def actions : List SendAction :=
  [.push version false [10], .push verack false [], .push version true [], .send [-1], .send [100, 100]]

def Hash (vch : Bytes) : Uint256 := 0x01020304 + vch.length

/-- They arrive byte by byte. -/
theorem handshake_arrives :
    ∃ vRecvMsg, receiveAll .main ((wires .main Hash actions).map fun b => [b]) = .ok vRecvMsg ∧
      List.Forall₂ (Delivered .main Hash) [version, verack] vRecvMsg := by
  obtain ⟨s, -, -, -, hreceive⟩ := (messages_arrive_as_sent .main Hash).1 actions
  exact hreceive _ (by decide +kernel)

end Handshake

end Syscoin
