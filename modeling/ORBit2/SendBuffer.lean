import ORBit2.Base.Gather
import ORBit2.Base.Refinement
import ORBit2.SendHeader

/-! The buffer in which a message is put together (giop-send-buffer.c): pieces of chunks of its own
and of the memory of its callers, which are gathered when the message is written. -/

set_option autoImplicit false

namespace ORBit2
open Words Gather

/-- `GIOP_CHUNK_SIZE` -/
def giopChunkSize : Nat := 8 * 256

/-- `GIOPIndirectChunk` -/
structure IndirectChunk where
  ptr : Nat
  size : Nat
  deriving DecidableEq, Repr

/-- `GIOPSendBuffer`. An address is a number, that of NULL is 0. -/
structure SendBuffer where
  /-- where `msg.header` lies -/
  headerAt : Nat
  header : MsgHeader
  iovecs : List Piece
  numAlloced : Nat
  lastptr : Nat
  indirect : Nat
  indirectLeft : Nat
  indirects : List IndirectChunk
  numIndirectsUsed : Nat
  deriving DecidableEq, Repr

inductive SendFault where
  /-- a `g_assert` fails -/
  | assertion
  /-- a chunk is written behind its end -/
  | overrun
  deriving DecidableEq, Repr

/-- The buffer, the memory, and what `giop_send_buffer_append_aligned` has returned for the
message. -/
structure SendState where
  memory : Mem UInt8
  buffer : SendBuffer
  returned : List Piece

/-- The `g_new0` buffer. -/
def SendBuffer.new (host : Endian) (headerAt : Nat) : SendBuffer :=
  ⟨headerAt, { MsgHeader.zero with flags := Endian.flag host }, [], 8, 0, 0, 0, [], 0⟩

/-- One more piece of memory. -/
def SendBuffer.appended (b : SendBuffer) (mem len : Nat) : SendBuffer :=
  { b with
    numAlloced :=
      if b.iovecs ≠ [] ∧ mem = b.lastptr ∨ b.iovecs.length < b.numAlloced then b.numAlloced
      else max b.numAlloced 4 * 2
    iovecs := push b.iovecs b.lastptr mem len
    header := { b.header with messageSize := (b.header.messageSize + len) % 2^32 }
    lastptr := mem + len }

/-- `giop_send_buffer_append_real` -/
def SendBuffer.appendReal (b : SendBuffer) (mem len : Nat) : Except SendFault SendBuffer :=
  if mem = 0 then .error .assertion else .ok (b.appended mem len)

namespace SendState

/-- The memory with the header in it. -/
def view (s : SendState) : Mem UInt8 := store s.memory s.buffer.headerAt s.buffer.header.encode

/-- `get_next_indirect`; `ptr` is what `g_malloc` returns. -/
def getNextIndirect (blank : Bool) (ptr forSizeHint : Nat) (s : SendState) :
    Except SendFault SendState :=
  let b := s.buffer
  match b.indirects[b.numIndirectsUsed]? with
  | some chunk => .ok { s with
      buffer := { b with
        indirect := chunk.ptr
        indirectLeft := chunk.size
        numIndirectsUsed := b.numIndirectsUsed + 1 } }
  | none =>
      let size := max giopChunkSize (alignUp forSizeHint 8)
      if ptr % 4 ≠ 0 then .error .assertion
      else .ok { s with
        memory := if blank then store s.memory ptr (List.replicate size 0) else s.memory
        buffer := { b with
          indirects := b.indirects ++ [⟨ptr, size⟩]
          indirect := ptr
          indirectLeft := size
          numIndirectsUsed := b.numIndirectsUsed + 1 } }

/-- A chunk in which `n` bytes are left. -/
def room (blank : Bool) (ptr forSizeHint n : Nat) (s : SendState) : Except SendFault SendState :=
  if s.buffer.indirectLeft < n then s.getNextIndirect blank ptr forSizeHint else .ok s

/-- Bytes are copied into the chunk and appended there. -/
def put (bytes : List UInt8) (s : SendState) : Except SendFault SendState :=
  if s.buffer.indirectLeft < bytes.length then .error .overrun
  else do
    let b ← s.buffer.appendReal s.buffer.indirect bytes.length
    return { s with
      memory := store s.memory s.buffer.indirect bytes
      buffer := { b with
        indirect := b.indirect + bytes.length
        indirectLeft := b.indirectLeft - bytes.length } }

/-- `giop_send_buffer_append_copy` -/
def appendCopy (blank : Bool) (ptr mem len : Nat) (s : SendState) : Except SendFault SendState := do
  let s ← s.room blank ptr len len
  s.put (load s.view mem len)

/-- `giop_send_buffer_append` -/
def append (blank : Bool) (ptr mem len : Nat) (s : SendState) : Except SendFault SendState :=
  if len ≤ 32 then s.appendCopy blank ptr mem len
  else do
    let b ← s.buffer.appendReal mem len
    return { s with buffer := b }

/-- `giop_send_buffer_align` -/
def align (blank : Bool) (ptr boundary : Nat) (s : SendState) : Except SendFault SendState :=
  -- a sum of 32-bit words
  let ms := (s.buffer.header.messageSize + 12) % 2^32
  let alignAmt := alignUp ms boundary - ms
  if alignAmt = 0 then .ok s
  else do
    let s ← s.room blank ptr 0 alignAmt
    s.put (List.replicate alignAmt 0)

/-- What an item begins with. -/
def itemBytes (s : SendState) (alignLen : Nat) : Option Nat → List UInt8
  | some mem => load s.view mem alignLen
  | none => List.replicate alignLen 0

/-- `giop_send_buffer_append_aligned` -/
def appendAligned (blank : Bool) (ptr : Nat) (mem : Option Nat) (alignLen : Nat) (s : SendState) :
    Except SendFault SendState := do
  let s ← s.align blank ptr alignLen
  let s ← s.room blank ptr 0 alignLen
  let s' ← s.put (s.itemBytes alignLen mem)
  return { s' with returned := s'.returned ++ [(s.buffer.indirect, alignLen)] }

/-- `giop_send_buffer_append_string`, of a string with `strlen` characters -/
def appendString (host : Endian) (blank : Bool) (ptr str strlen : Nat) (s : SendState) :
    Except SendFault SendState := do
  let len := (strlen + 1) % 2^32
  let s ← s.align blank ptr 4
  if (4 + len) % 2^32 ≤ s.buffer.indirectLeft then
    s.put (host.split 4 len ++ load s.view str len)
  else do
    let s ← s.room blank ptr 4 4
    let s ← s.put (host.split 4 len)
    s.append blank ptr str len

/-- `giop_send_buffer_use`, of this buffer -/
def use (blank : Bool) (version : Version) (s : SendState) : Except SendFault SendState := do
  let wiped := (s.buffer.indirects.take s.buffer.numIndirectsUsed).foldl
    (fun memory chunk => store memory chunk.ptr (List.replicate chunk.size 0)) s.memory
  let b := { s.buffer with
    header := { s.buffer.header with version := version }
    iovecs := []
    indirectLeft := 0
    numIndirectsUsed := 0 }
  let b ← b.appendReal b.headerAt 12
  return {
    memory := if blank then wiped else s.memory
    buffer := { b with header := { b.header with messageSize := 0 } }
    returned := [] }

/-- `giop_send_buffer_unuse`; a chunk that is made smaller stays where it is. -/
def unuse (s : SendState) : SendState :=
  let shrink (chunk : IndirectChunk) : IndirectChunk :=
    if giopChunkSize < chunk.size then { chunk with size := giopChunkSize } else chunk
  let used := s.buffer.numIndirectsUsed
  { s with buffer := { s.buffer with
      indirects := (s.buffer.indirects.take used).map shrink ++ s.buffer.indirects.drop used } }

end SendState

/-- A new buffer, in memory at `headerAt`. -/
def SendState.new (host : Endian) (headerAt : Nat) (memory : Mem UInt8) : SendState :=
  ⟨memory, .new host headerAt, []⟩

/-- What is done with the buffer. The content of the caller's memory is given with its address; the
functions look at the memory. -/
inductive SendCall where
  | use (version : Version)
  | messageType (type : MsgType)
  | append (mem : Nat) (content : List UInt8)
  | appendAligned (mem : Nat) (content : List UInt8)
  /-- `giop_send_buffer_append_aligned` with NULL -/
  | reserve (alignLen : Nat)
  | align (boundary : Nat)
  | appendString (str : Nat) (content : List UInt8)
  /-- a write through the pointer that was returned for an item -/
  | patch (item : Nat) (content : List UInt8)
  /-- the rest of the program changes the memory -/
  | outside (memory : Mem UInt8)
  | unuse

/-- What a call appends. -/
def SendCall.op : SendCall → Option SendOp
  | .append _ content => some (.append content)
  | .appendAligned _ content => some (.appendAligned content)
  | .reserve alignLen => some (.appendAligned (List.replicate alignLen 0))
  | .align boundary => some (.align boundary)
  | .appendString _ content => some (.appendString content)
  | .use _ | .messageType _ | .patch _ _ | .outside _ | .unuse => none

/-- The call appends something, or does not concern the buffer. -/
def SendCall.Marshals (c : SendCall) : Prop := c.op.isSome = true ∨ ∃ memory, c = .outside memory

/-- A call, and what `g_malloc` returns if it is asked for a chunk now. -/
structure SendEvent where
  ptr : Nat
  call : SendCall

def SendState.step (host : Endian) (blank : Bool) (s : SendState) (e : SendEvent) :
    Except SendFault SendState :=
  match e.call with
  | .use version => s.use blank version
  | .messageType type =>
      .ok { s with buffer := { s.buffer with header := { s.buffer.header with messageType := type } } }
  | .append mem content => s.append blank e.ptr mem content.length
  | .appendAligned mem content => s.appendAligned blank e.ptr (some mem) content.length
  | .reserve alignLen => s.appendAligned blank e.ptr none alignLen
  | .align boundary => s.align blank e.ptr boundary
  | .appendString str content => s.appendString host blank e.ptr str content.length
  | .patch item content =>
      match s.returned[item]? with
      | some p => .ok { s with memory := store s.memory p.1 content }
      | none => .ok s
  | .outside memory => .ok { s with memory := memory }
  | .unuse => .ok s.unuse

/-! ### The message that is meant -/

/-- A message under construction: the offsets and lengths of its aligned items beside it. -/
structure PlainMessage where
  version : Version
  messageType : MsgType
  plain : PlainBuffer
  items : List (Nat × Nat)
  deriving DecidableEq, Repr

namespace PlainMessage

def start (version : Version) (messageType : MsgType) : PlainMessage :=
  ⟨version, messageType, ⟨12, []⟩, []⟩

def exec (host : Endian) (m : PlainMessage) (op : SendOp) : PlainMessage :=
  { m with plain := m.plain.exec host op }

def alignedItem (host : Endian) (m : PlainMessage) (content : List UInt8) : PlainMessage :=
  { m.exec host (.appendAligned content) with
    items := m.items ++ [((m.plain.align content.length).body.length, content.length)] }

def step (host : Endian) (m : PlainMessage) (e : SendEvent) : PlainMessage :=
  match e.call with
  | .use version => start version m.messageType
  | .messageType type => { m with messageType := type }
  | .append _ content => m.exec host (.append content)
  | .appendAligned _ content => m.alignedItem host content
  | .reserve alignLen => m.alignedItem host (List.replicate alignLen 0)
  | .align boundary => m.exec host (.align boundary)
  | .appendString _ content => m.exec host (.appendString content)
  | .patch item content =>
      match m.items[item]? with
      | some i => { m with plain := { m.plain with body := overwrite m.plain.body i.1 content } }
      | none => m
  | .outside _ | .unuse => m

/-- The message as it goes over the wire. -/
def wire (host : Endian) (m : PlainMessage) : List UInt8 :=
  (MsgHeader.mk m.version (Endian.flag host) m.messageType m.plain.body.length).encode ++ m.plain.body

end PlainMessage

/-! ### What the callers promise -/

namespace SendBuffer

def Owned (b : SendBuffer) (a : Nat) : Prop := ∃ c ∈ b.indirects, c.ptr ≤ a ∧ a < c.ptr + c.size

def InHeader (b : SendBuffer) (a : Nat) : Prop := b.headerAt ≤ a ∧ a < b.headerAt + 12

/-- The address can still be written for this message. -/
def Free (b : SendBuffer) (a : Nat) : Prop :=
  (b.indirect ≤ a ∧ a < b.indirect + b.indirectLeft) ∨
    ∃ c ∈ b.indirects.drop b.numIndirectsUsed, c.ptr ≤ a ∧ a < c.ptr + c.size

end SendBuffer

/-- The address lies in the block of a new chunk. -/
def InChunk (ptr a : Nat) : Prop := ptr ≤ a ∧ a < ptr + giopChunkSize

/-- Memory that `g_malloc` may return. -/
structure SendState.Fresh (s : SendState) (ptr : Nat) : Prop where
  notNull : ptr ≠ 0
  aligned : ptr % 4 = 0
  unused : ∀ a, InChunk ptr a →
    ¬ s.buffer.Owned a ∧ ¬ s.buffer.InHeader a ∧ a ∉ cells s.buffer.iovecs

/-- Memory of the caller with a content. -/
structure SendState.Lends (s : SendState) (ptr mem : Nat) (content : List UInt8) : Prop where
  holds : load s.memory mem content.length = content
  apart : ∀ a, mem ≤ a → a < mem + content.length →
    ¬ s.buffer.Owned a ∧ ¬ s.buffer.InHeader a ∧ ¬ InChunk ptr a
  notNull : content ≠ [] → mem ≠ 0

/-- What is promised to a call: fresh memory, a content where it is announced, the alignments of
CORBA, and that memory which is still to be gathered is not changed. Nothing at all can be appended
only when the buffer has had a chunk. -/
def SendState.Promise (s : SendState) (e : SendEvent) : Prop :=
  match e.call with
  | .use _ | .messageType _ | .unuse => True
  | .append mem content =>
      s.Fresh e.ptr ∧ s.Lends e.ptr mem content ∧ (content = [] → s.buffer.indirect ≠ 0)
  | .appendAligned mem content =>
      s.Fresh e.ptr ∧ s.Lends e.ptr mem content ∧ content.length ∣ 16
  | .reserve alignLen => s.Fresh e.ptr ∧ alignLen ∣ 16
  | .align boundary => s.Fresh e.ptr ∧ boundary ∣ 16
  | .appendString str content =>
      s.Fresh e.ptr ∧ s.Lends e.ptr str (content ++ [0]) ∧ 0 ∉ content ∧ content.length + 5 < 2^32
  | .patch item content => ∃ p, s.returned[item]? = some p ∧ content.length ≤ p.2
  | .outside memory => ∀ a ∈ cells s.buffer.iovecs, s.buffer.InHeader a ∨ memory a = s.memory a

end ORBit2
