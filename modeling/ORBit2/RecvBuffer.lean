import ORBit2.TypeCode

/-! Receive buffers: the twelve header bytes, and the decoders of
`giop-recv-buffer.c` that read what follows them in a message of each kind. -/

set_option autoImplicit false

namespace ORBit2
open Words

inductive Version where
  | v1_0 | v1_1 | v1_2
  deriving DecidableEq, Repr

/-- `giop_version_ids` -/
def Version.ids : Version → List UInt8
  | .v1_0 => [1, 0]
  | .v1_1 => [1, 1]
  | .v1_2 => [1, 2]

def Version.ofIds : List UInt8 → Option Version
  | [1, 0] => some .v1_0
  | [1, 1] => some .v1_1
  | [1, 2] => some .v1_2
  | _ => none

inductive MsgType where
  | request | reply | cancelRequest | locateRequest | locateReply
  | closeConnection | messageError | fragment
  deriving DecidableEq, Repr

def MsgType.code : MsgType → UInt8
  | .request => 0
  | .reply => 1
  | .cancelRequest => 2
  | .locateRequest => 3
  | .locateReply => 4
  | .closeConnection => 5
  | .messageError => 6
  | .fragment => 7

/-- `none` from `GIOP_NUM_MSG_TYPES` on. -/
def MsgType.ofCode : UInt8 → Option MsgType
  | 0 => some .request
  | 1 => some .reply
  | 2 => some .cancelRequest
  | 3 => some .locateRequest
  | 4 => some .locateReply
  | 5 => some .closeConnection
  | 6 => some .messageError
  | 7 => some .fragment
  | _ => none

theorem Version.ofIds_ids (v : Version) : Version.ofIds v.ids = some v := by
  cases v <;> rfl

theorem MsgType.ofCode_code (t : MsgType) : MsgType.ofCode t.code = some t := by
  cases t <;> rfl

structure MsgHeader where
  version : Version
  flags : UInt8
  messageType : MsgType
  messageSize : Nat
  deriving DecidableEq, Repr

/-- The `g_new0` header. -/
def MsgHeader.zero : MsgHeader := ⟨.v1_0, 0, .request, 0⟩

/-- `GIOP_FLAG_LITTLE_ENDIAN` -/
def MsgHeader.sender (h : MsgHeader) : Endian := if h.flags &&& 1 = 1 then .little else .big

/-- `MORE_FRAGMENTS_FOLLOW` -/
def MsgHeader.moreFragments (h : MsgHeader) : Bool := h.flags &&& 2 ≠ 0

def magic : List UInt8 := [0x47, 0x49, 0x4f, 0x50]

def MsgHeader.encode (h : MsgHeader) : List UInt8 :=
  magic ++ h.version.ids ++ [h.flags, h.messageType.code] ++ h.sender.split 4 h.messageSize

/-- `message_size` as `giop_recv_msg_reading_body` leaves it. -/
def MsgHeader.convert (host : Endian) (h : MsgHeader) : MsgHeader :=
  if h.sender ≠ host then { h with messageSize := swapWord 4 h.messageSize } else h

/-- The checks of `giop_recv_msg_reading_body` on the twelve header bytes. -/
def parseHeader (host : Endian) : List UInt8 → Option MsgHeader
  | m0 :: m1 :: m2 :: m3 :: major :: minor :: flags :: code :: size =>
      if [m0, m1, m2, m3] ≠ magic then none
      else
        match MsgType.ofCode code, Version.ofIds [major, minor] with
        | some messageType, some version =>
            some (MsgHeader.convert host ⟨version, flags, messageType, host.join size⟩)
        | _, _ => none
  | _ => none

@[simp] theorem MsgHeader.encode_length (h : MsgHeader) : h.encode.length = 12 := by
  cases hv : h.version <;> simp [MsgHeader.encode, magic, Version.ids, hv]

theorem MsgHeader.convert_sender (host : Endian) (h : MsgHeader) (hs : h.messageSize < 2^32) :
    MsgHeader.convert host
      { h with messageSize := host.join (h.sender.split 4 h.messageSize) } = h := by
  have hj : h.sender.join (h.sender.split 4 h.messageSize) = h.messageSize :=
    Endian.join_split h.sender 4 h.messageSize (by omega)
  have hs : MsgHeader.sender
      { h with messageSize := host.join (h.sender.split 4 h.messageSize) } = h.sender := rfl
  simp only [MsgHeader.convert, hs]
  by_cases he : h.sender = host
  · rw [if_neg (fun hc => hc he), ← he, hj]
  · have hw := swapWord_join host (h.sender.split 4 h.messageSize)
    rw [Endian.split_length, ← Endian.eq_flip_of_ne (fun hc => he hc.symm), hj] at hw
    rw [if_pos (show h.sender ≠ host from he), hw]

/-- Any peer's header is read back by a host of either order. -/
theorem parseHeader_encode (host : Endian) (h : MsgHeader) (hs : h.messageSize < 2^32) :
    parseHeader host h.encode = some h := by
  have hc := MsgHeader.convert_sender host h hs
  cases h with
  | mk version flags messageType messageSize =>
    cases version <;>
      simp [MsgHeader.encode, magic, Version.ids, parseHeader, MsgType.ofCode_code,
        Version.ofIds] <;> exact hc

structure Span where
  offset : Nat
  length : Nat
  deriving DecidableEq, Repr

/-- `buf->msg.u`: the fields of its members under one roof, with pointers into the
body as offsets from `message_body`. The defaults are those of `g_new0`. -/
structure MsgUnion where
  requestId : Nat := 0
  /-- `response_expected` or `response_flags` -/
  responseFlags : Nat := 0
  /-- `target._d` -/
  addressing : Nat := 0
  objectKey : Span := ⟨0, 0⟩
  operation : Option Nat := none
  serviceContext : Value := .seq []
  requestingPrincipal : Span := ⟨0, 0⟩
  /-- `reply_status` or `locate_status` -/
  status : Nat := 0
  deriving Repr

/-- `TC_IOP_ServiceContextList` -/
def serviceContextList : TypeCode :=
  .alias (.sequence (.struct [.alias (.basic .ulong), .sequence (.basic .octet)]))

namespace Dec

/-- A word whose room was tested before. -/
def word (w : Nat) : Dec Nat := do
  let n ← peek w
  advance w
  return n

def tell : Dec Nat := fun c => .ok (c.cur, c)

/-- A length word, the test that so many bytes follow, and a pointer to them. -/
def countedBytes : Dec Span := do
  let n ← word 4
  need n
  let offset ← tell
  advance n
  return ⟨offset, n⟩

/-- The same behind its own alignment. -/
def alignedBytes : Dec Span := do
  align 4
  need 4
  countedBytes

end Dec

/-- `giop_GIOP_TargetAddress_demarshal` -/
def demarshalTargetAddress : Dec (Nat × Span) := do
  Dec.align 2
  Dec.need 2
  let d ← Dec.word 2
  match d with
  | 0 =>
      let key ← Dec.alignedBytes
      return (0, key)
  | 1 => Dec.stop .fail
  | 2 => Dec.stop .fail
  | d => return (d, ⟨0, 0⟩)

def demarshalRequest11 : Dec MsgUnion := do
  let serviceContext ← demarshalValue serviceContextList
  Dec.align 4
  Dec.need 12
  let requestId ← Dec.word 4
  let responseExpected ← Dec.peek 1
  Dec.advance 4
  let objectKey ← Dec.countedBytes
  let operation ← Dec.alignedBytes
  let requestingPrincipal ← Dec.alignedBytes
  return { requestId := requestId, responseFlags := responseExpected, objectKey := objectKey,
           operation := some operation.offset, serviceContext := serviceContext,
           requestingPrincipal := requestingPrincipal }

/-- The last `ALIGN_ADDRESS` is not tested against `end`. -/
def demarshalRequest12 : Dec MsgUnion := do
  Dec.align 4
  Dec.need 8
  let requestId ← Dec.word 4
  let responseFlags ← Dec.peek 1
  Dec.advance 4
  let (d, objectKey) ← demarshalTargetAddress
  let operation ← Dec.alignedBytes
  let serviceContext ← demarshalValue serviceContextList
  Dec.align 8
  return { requestId := requestId, responseFlags := responseFlags, addressing := d,
           objectKey := objectKey, operation := some operation.offset,
           serviceContext := serviceContext }

def demarshalReply11 : Dec MsgUnion := do
  let serviceContext ← demarshalValue serviceContextList
  Dec.align 4
  Dec.need 8
  let requestId ← Dec.word 4
  let status ← Dec.word 4
  return { requestId := requestId, status := status, serviceContext := serviceContext }

def demarshalReply12 : Dec MsgUnion := do
  Dec.align 4
  Dec.need 8
  let requestId ← Dec.word 4
  let status ← Dec.word 4
  let serviceContext ← demarshalValue serviceContextList
  Dec.align 8
  return { requestId := requestId, status := status, serviceContext := serviceContext }

def demarshalCancel : Dec MsgUnion := do
  Dec.align 4
  Dec.need 4
  let requestId ← Dec.word 4
  return { requestId := requestId }

def demarshalLocateRequest11 : Dec MsgUnion := do
  Dec.align 4
  Dec.need 8
  let requestId ← Dec.word 4
  let objectKey ← Dec.countedBytes
  return { requestId := requestId, objectKey := objectKey }

def demarshalLocateRequest12 : Dec MsgUnion := do
  Dec.align 4
  Dec.need 4
  let requestId ← Dec.word 4
  let (d, objectKey) ← demarshalTargetAddress
  return { requestId := requestId, addressing := d, objectKey := objectKey }

def demarshalLocateReply11 : Dec MsgUnion := do
  Dec.align 4
  Dec.need 8
  let requestId ← Dec.word 4
  let status ← Dec.word 4
  return { requestId := requestId, status := status }

/-- `giop_recv_buffer_demarshal_locate_reply_1_2` -/
def demarshalLocateReply12 : Dec MsgUnion := demarshalLocateReply11

/-- The table `decode_funcs`. -/
def decodeFunc : MsgType → Version → Option (Dec MsgUnion)
  | .request, .v1_2 => some demarshalRequest12
  | .request, _ => some demarshalRequest11
  | .reply, .v1_2 => some demarshalReply12
  | .reply, _ => some demarshalReply11
  | .cancelRequest, _ => some demarshalCancel
  | .locateRequest, .v1_2 => some demarshalLocateRequest12
  | .locateRequest, _ => some demarshalLocateRequest11
  | .locateReply, .v1_2 => some demarshalLocateReply12
  | .locateReply, _ => some demarshalLocateReply11
  | .closeConnection, _ => none
  | .messageError, _ => none
  | .fragment, _ => none

inductive MsgState where
  | readingHeader | readingBody | awaitingFragments | ready
  deriving DecidableEq, Repr

/-- `GIOPRecvBuffer`. The bytes from `message_body + 12` on are `body`, as far as they
have arrived; the twelve in front of them are never written. -/
structure RecvBuffer where
  id : Nat
  /-- the bytes of `msg.header` read so far -/
  rawHeader : List UInt8
  header : MsgHeader
  decoded : MsgUnion
  /-- the block that the pointers in `decoded` point into -/
  decodedIn : Option Nat
  /-- the block at `message_body` -/
  block : Option Nat
  body : List UInt8
  cur : Nat
  stop : Nat
  state : MsgState
  leftToRead : Nat
  freeBody : Bool
  deriving Repr

namespace RecvBuffer

/-- `giop_recv_buffer_use_buf` -/
def useBuf (id : Nat) : RecvBuffer :=
  { id := id, rawHeader := [], header := .zero, decoded := {}, decodedIn := none,
    block := none, body := [], cur := 0, stop := 0, state := .readingHeader,
    leftToRead := 12, freeBody := false }

/-- The bytes from `message_body` to `end`. -/
def data (buf : RecvBuffer) : List UInt8 := List.replicate 12 0 ++ buf.body

def cursor (host : Endian) (buf : RecvBuffer) : RecvCursor :=
  ⟨0, buf.data, buf.cur, host, buf.header.sender⟩

/-- `giop_recv_buffer_demarshal` -/
def demarshal (host : Endian) (buf : RecvBuffer) : Except Stop RecvBuffer :=
  match decodeFunc buf.header.messageType buf.header.version with
  | none => .ok buf
  | some decode =>
      match decode (buf.cursor host) with
      | .error e => .error e
      | .ok (u, c) => .ok { buf with decoded := u, decodedIn := buf.block, cur := c.cur }

/-- `giop_recv_buffer_get_request_id` -/
def requestId (buf : RecvBuffer) : Nat :=
  match buf.header.messageType with
  | .request | .reply | .cancelRequest | .locateRequest | .locateReply => buf.decoded.requestId
  | .closeConnection | .messageError | .fragment => 0

/-- What a pointer in `decoded` reads. A pointer into another block than the one the
buffer owns reads freed memory. -/
def deref {α : Type} (buf : RecvBuffer) (read : List UInt8 → α) : Option α :=
  if buf.decodedIn = buf.block then some (read buf.data) else none

/-- `giop_recv_buffer_get_objkey`, and the bytes it points to; its assertion fails on a
target that is not a `GIOP_KeyAddr`. -/
def objkey (buf : RecvBuffer) : Option (List UInt8) :=
  if buf.decoded.addressing ≠ 0 then none
  else buf.deref fun data =>
    (data.drop buf.decoded.objectKey.offset).take buf.decoded.objectKey.length

/-- `giop_recv_buffer_get_opname` as a C string. -/
def opname (buf : RecvBuffer) : Option (List UInt8) :=
  match buf.decoded.operation with
  | none => none
  | some offset => buf.deref fun data => (data.drop offset).takeWhile (· ≠ 0)

end RecvBuffer

end ORBit2
