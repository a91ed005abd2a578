import ORBit2.RecvBuffer

/-! The headers that `giop-send-buffer.c` puts in front of a body, as the calls it
makes on the send buffer. -/

set_option autoImplicit false

namespace ORBit2
open Words

/-- `iop_service_context_data`: one CodeSets context, UTF-8 and UTF-16. -/
def iopServiceContextData (host : Endian) : List UInt8 :=
  [1, 1, 12, if host = .little then 0x01010101 else 0, 0x05010001, 0x00010109].flatMap
    (host.split 4)

/-- The operation as `orbit_small_marshal` lays it out. -/
def operationVec (host : Endian) (name : List UInt8) : List UInt8 :=
  let header := host.split 4 (name.length+1) ++ name ++ [0]
  header ++ List.replicate (alignUp header.length 4 - header.length) 0

/-- `giop_send_buffer_use_request` -/
def useRequest (host : Endian) (version : Version) (requestId : Nat) (responseExpected : UInt8)
    (objkey operationVec : List UInt8) (principalVec : Option (List UInt8)) : List SendOp :=
  .align 4 ::
  match version with
  | .v1_0 | .v1_1 =>
      [.append (iopServiceContextData host), .append (host.split 4 requestId),
       .append [responseExpected], .appendAligned (host.split 4 objkey.length), .append objkey,
       .align 4, .append operationVec, .append (principalVec.getD (List.replicate 4 0))]
  | .v1_2 =>
      [.align 4, .append (host.split 4 requestId),
       .append [if responseExpected ≠ 0 then 3 else 0], .append (List.replicate 3 0),
       .append (host.split 2 0), .appendAligned (host.split 4 objkey.length), .append objkey,
       .align 4, .append operationVec, .append (iopServiceContextData host), .align 8]

/-- `giop_send_buffer_use_reply` -/
def useReply (host : Endian) (version : Version) (requestId replyStatus : Nat) : List SendOp :=
  match version with
  | .v1_0 | .v1_1 =>
      [.append (iopServiceContextData host), .append (host.split 4 requestId),
       .append (host.split 4 replyStatus)]
  | .v1_2 =>
      [.append (host.split 4 requestId), .append (host.split 4 replyStatus),
       .append (iopServiceContextData host), .align 8]

/-- `giop_send_buffer_use_locate_request` -/
def useLocateRequest (host : Endian) (version : Version) (requestId : Nat)
    (objkey : List UInt8) : List SendOp :=
  .append (host.split 4 requestId) ::
  match version with
  | .v1_0 | .v1_1 => [.appendAligned (host.split 4 objkey.length), .append objkey]
  | .v1_2 =>
      [.append (host.split 2 0), .appendAligned (host.split 4 objkey.length), .append objkey]

/-- `giop_send_buffer_use_locate_reply` -/
def useLocateReply (host : Endian) (requestId locateStatus : Nat) : List SendOp :=
  [.append (host.split 4 requestId), .append (host.split 4 locateStatus)]

/-- A message as its sender asks for it. -/
inductive Outgoing where
  | request (requestId : Nat) (responseExpected : UInt8) (objkey operation : List UInt8)
  | reply (requestId replyStatus : Nat)
  | locateRequest (requestId : Nat) (objkey : List UInt8)
  | locateReply (requestId locateStatus : Nat)

namespace Outgoing

def messageType : Outgoing → MsgType
  | .request .. => .request
  | .reply .. => .reply
  | .locateRequest .. => .locateRequest
  | .locateReply .. => .locateReply

def ops (host : Endian) (version : Version) : Outgoing → List SendOp
  | .request id resp key op => useRequest host version id resp key (operationVec host op) none
  | .reply id status => useReply host version id status
  | .locateRequest id key => useLocateRequest host version id key
  | .locateReply id status => useLocateReply host id status

/-- The words are 32-bit words, and the operation is a C string. -/
def Valid : Outgoing → Prop
  | .request id _ key op => id < 2^32 ∧ key.length < 2^32 ∧ op.length + 1 < 2^32 ∧ ∀ c ∈ op, c ≠ 0
  | .reply id status => id < 2^32 ∧ status < 2^32
  | .locateRequest id key => id < 2^32 ∧ key.length < 2^32
  | .locateReply id status => id < 2^32 ∧ status < 2^32

end Outgoing

/-- `GIOP_FLAG_ENDIANNESS` -/
def Endian.flag : Endian → UInt8
  | .little => 1
  | .big => 0

/-- The header bytes of a message behind which `ops` put the body. -/
def sentHeader (host : Endian) (m : Outgoing) (version : Version) (size : Nat) : MsgHeader :=
  ⟨version, Endian.flag host, m.messageType, size⟩

theorem sentHeader_sender (host : Endian) (m : Outgoing) (version : Version) (size : Nat) :
    (sentHeader host m version size).sender = host := by
  cases host <;> simp [MsgHeader.sender, sentHeader, Endian.flag]

/-- The body that the header functions wrote. -/
def Outgoing.headerBody (host : Endian) (version : Version) (m : Outgoing) : List UInt8 :=
  (PlainBuffer.run host ⟨12, []⟩ (m.ops host version)).body

/-- The message on the wire, with what was marshalled after its header. -/
def Outgoing.wire (host : Endian) (version : Version) (m : Outgoing) (rest : List UInt8) :
    List UInt8 :=
  let body := m.headerBody host version ++ rest
  (sentHeader host m version body.length).encode ++ body

end ORBit2
