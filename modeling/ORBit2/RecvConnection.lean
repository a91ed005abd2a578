import ORBit2.Base.Runs
import ORBit2.RecvBuffer

/-! The receiving half of a connection: `giop_connection_handle_input` with the
fragment lists it keeps, as a function from one state of the connection to the
next. What the allocator and the reply queue answer comes from an environment. -/

set_option autoImplicit false

namespace ORBit2
open Words

/-- The ways a run can end inside the receiving code. -/
inductive Fault where
  /-- a `g_assert` of `giop-recv-buffer.c` fails -/
  | assertion
  /-- `g_assert (n <= len)` in `link_connection_read` fails -/
  | readAssertion
  | doubleFree
  | useAfterFree
  /-- `memcpy` is given a negative length -/
  | negativeLength
  /-- `memcpy` writes behind the block -/
  | heapOverflow
  /-- a demarshalling function does something undefined -/
  | undefined
  deriving DecidableEq, Repr

/-- What `g_try_realloc` does with the block it is given. -/
inductive Realloc where
  | fail | inPlace | moved
  deriving DecidableEq, Repr

structure Env where
  host : Endian
  /-- `giop_initial_msg_size_limit` -/
  limit : Nat
  /-- the answer to the `n`-th call of `g_try_realloc` -/
  realloc : Nat → Realloc
  /-- whether `handle_reply` returns TRUE on the last of these buffers -/
  replyBad : List RecvBuffer → Bool

inductive LinkStatus where
  | connecting | connected | disconnected | timeout
  deriving DecidableEq, Repr

/-- A list in `incoming_frags`; it is never empty. -/
structure FragList where
  head : RecvBuffer
  tail : List RecvBuffer

structure Conn where
  incomingMsg : Option RecvBuffer
  incomingFrags : List FragList
  status : LinkStatus
  isAuth : Bool
  /-- how many buffers `giop_recv_buffer_use_buf` has handed out -/
  buffers : Nat
  /-- how many times `g_try_realloc` was called; the count names a fresh block -/
  allocs : Nat
  /-- the buffers that were freed or given away -/
  gone : List Nat
  /-- the buffers passed to `handle_reply`, `ORBit_handle_request` and
  `ORBit_handle_locate_request`, in this order -/
  dispatched : List RecvBuffer
  fault : Option Fault

namespace Conn

def fresh (isAuth : Bool) : Conn :=
  ⟨none, [], .connected, isAuth, 0, 0, [], [], none⟩

/-- Reading or writing a field of a buffer. -/
def access (c : Conn) (buf : RecvBuffer) : Except Fault Unit :=
  if buf.id ∈ c.gone then .error .useAfterFree else .ok ()

/-- `giop_recv_buffer_unuse` -/
def unuse (c : Conn) (buf : RecvBuffer) : Except Fault Conn :=
  if buf.id ∈ c.gone then .error .doubleFree else .ok { c with gone := buf.id :: c.gone }

def unuseAll (c : Conn) : List RecvBuffer → Except Fault Conn
  | [] => .ok c
  | buf :: bufs => do
      let c ← c.unuse buf
      c.unuseAll bufs

/-- `giop_connection_real_state_changed` for `LINK_DISCONNECTED`. -/
def disconnect (c : Conn) : Except Fault Conn :=
  match c.incomingMsg with
  | none => .ok { c with status := .disconnected }
  | some buf => do
      let c ← c.unuse buf
      return { c with status := .disconnected, incomingMsg := none }

/-- The label `msg_error`. -/
def msgError (c : Conn) (buf : RecvBuffer) : Except Fault Conn := do
  let c ← { c with incomingMsg := none }.unuse buf
  c.disconnect

end Conn

/-- `alloc_buffer`; `none` is its TRUE. -/
def allocBuffer (env : Env) (c : Conn) (buf : RecvBuffer) (oldAlloc : Option Nat)
    (bodySize : Nat) : Conn × Option RecvBuffer :=
  let c' := { c with allocs := c.allocs + 1 }
  let allocated (block : Nat) : RecvBuffer :=
    { buf with block := some block, freeBody := true, cur := 12, stop := 12 + bodySize,
               leftToRead := bodySize }
  match env.realloc c.allocs, oldAlloc with
  | .fail, _ => (c', none)
  | .inPlace, some block => (c', some (allocated block))
  | _, _ => (c', some (allocated c.allocs))

/-- `giop_recv_msg_reading_body`; `none` is its TRUE. -/
def recvMsgReadingBody (env : Env) (c : Conn) (buf : RecvBuffer) : Conn × Option RecvBuffer :=
  match parseHeader env.host buf.rawHeader with
  | none => (c, none)
  | some header =>
      if c.isAuth = false ∧ env.limit < header.messageSize then (c, none)
      else allocBuffer env c { buf with header := header } none header.messageSize

/-- The lists in front of one, the one, and those behind it. -/
abbrev Zipper := List FragList × FragList × List FragList

/-- The search loop of `giop_connection_get_frag`. -/
def findFrag (c : Conn) (requestId : Nat) : List FragList → Except Fault (Option Zipper)
  | [] => .ok none
  | frags :: rest => do
      c.access frags.head
      if frags.head.requestId = requestId then return some ([], frags, rest)
      else
        match ← findFrag c requestId rest with
        | none => return none
        | some (before, found, after) => return some (frags :: before, found, after)

/-- `giop_connection_get_frag` -/
def getFrag (c : Conn) (requestId : Nat) (returnFirstIfNone : Bool) :
    Except Fault (Option Zipper) := do
  match ← findFrag c requestId c.incomingFrags with
  | some found => return some found
  | none =>
      match returnFirstIfNone, c.incomingFrags with
      | true, first :: rest => return some ([], first, rest)
      | _, _ => return none

/-- The copying loop of `concat_frags`: `len = buf->end - buf->cur`. -/
def copyFrags (c : Conn) : List RecvBuffer → Except Fault (List UInt8)
  | [] => .ok []
  | buf :: bufs => do
      c.access buf
      if buf.stop < buf.cur then .error .negativeLength
      else
        let rest ← copyFrags c bufs
        return buf.data.drop buf.cur ++ rest

/-- `concat_frags` on a list that holds `head` and `tail`; `none` is its TRUE. What the
new block holds up to the old `end` is what the old one held. -/
def concatFrags (env : Env) (c : Conn) (head : RecvBuffer) (tail : List RecvBuffer) :
    Except Fault (Conn × Option RecvBuffer) := do
  let length := head.header.messageSize + (head.cur - 12)
  if head.freeBody = false then .error .assertion
  else
    match allocBuffer env c head head.block length with
    | (c, none) => return (c, none)
    | (c, some new) =>
        let copied ← copyFrags c tail
        if 12 + length < head.stop + copied.length then .error .heapOverflow
        else
          return (c, some { new with leftToRead := 0, cur := head.cur,
                                     body := head.body ++ copied,
                                     stop := head.stop + copied.length })

/-- The request id of a fragment: read behind the header, except in GIOP 1.1. -/
def fragmentId : Dec Nat := do
  Dec.align 4
  Dec.need 4
  Dec.word 4

/-- The first `switch` of `giop_recv_buffer_handle_fragmented`; `none` is its TRUE. -/
def messageId (env : Env) (buf : RecvBuffer) : Option (RecvBuffer × Nat) :=
  match buf.header.messageType with
  | .reply | .locateReply | .request | .locateRequest => some (buf, buf.requestId)
  | .fragment =>
      if buf.header.version = .v1_1 then some (buf, 0)
      else
        match fragmentId (buf.cursor env.host) with
        | .error _ => none
        | .ok (id, cursor) => some ({ buf with cur := cursor.cur }, id)
  | .cancelRequest | .closeConnection | .messageError => none

/-- `head->msg.header.message_size += (buf->end - buf->cur)` -/
def addLength (head buf : RecvBuffer) : RecvBuffer :=
  let size := (head.header.messageSize + (buf.stop - buf.cur : Int)) % 2^32
  { head with header := { head.header with messageSize := size.toNat } }

/-- `giop_recv_buffer_handle_fragmented`: its result and what it leaves in `*ret_buf`.
The size test reads the header of `buf`; `giop_connection_remove_frag` frees `buf` with
its list, and the next line reads the flags of `buf`. -/
def handleFragmented (env : Env) (c : Conn) (buf : RecvBuffer) :
    Except Fault (Bool × RecvBuffer × Conn) :=
  match messageId env buf with
  | none => .ok (true, buf, c)
  | some (buf, id) => do
      match ← getFrag c id (buf.header.version = .v1_1) with
      | none =>
          if buf.header.moreFragments = false then return (true, buf, c)
          else return (false, buf, { c with incomingFrags := ⟨buf, []⟩ :: c.incomingFrags })
      | some (before, frags, after) =>
          c.access frags.head
          if frags.head.header.messageType = .fragment then .error .assertion
          else
            let head := addLength frags.head buf
            let tail := frags.tail ++ [buf]
            if c.isAuth = false ∧ env.limit < buf.header.messageSize then .error .useAfterFree
            else if buf.header.moreFragments then
              return (false, head, { c with incomingFrags := before ++ ⟨head, tail⟩ :: after })
            else if buf.header.messageType ≠ .fragment then .error .assertion
            else
              let (c, whole) ← concatFrags env c head tail
              let c ← c.unuseAll tail
              let c := { c with incomingFrags := before ++ after }
              match whole with
              | none => return (true, head, c)
              | some whole => return (false, whole, c)

/-- The last `switch` of `giop_connection_handle_input`. -/
def dispatch (env : Env) (c : Conn) (buf : RecvBuffer) : Except Fault Conn := do
  let c := { c with incomingMsg := none }
  c.access buf
  match buf.header.messageType with
  | .reply | .locateReply =>
      let c := { c with dispatched := c.dispatched ++ [buf], gone := buf.id :: c.gone }
      if env.replyBad c.dispatched then c.disconnect else return c
  | .request | .locateRequest =>
      return { c with dispatched := c.dispatched ++ [buf], gone := buf.id :: c.gone }
  | .cancelRequest | .messageError => c.unuse buf
  | .closeConnection =>
      let c ← c.unuse buf
      c.disconnect
  | .fragment => c.msgError buf

/-- `case GIOP_MSG_READING_BODY`, and what follows the loop. -/
def finishBody (env : Env) (c : Conn) (buf : RecvBuffer) : Except Fault Conn :=
  let buf := { buf with cur := 12 }
  if buf.stop < buf.cur + buf.header.messageSize then c.msgError buf
  else
    let buf := { buf with state := .ready }
    match buf.demarshal env.host with
    | .error .undefined => .error .undefined
    | .error .fail => c.msgError buf
    | .ok buf =>
        if buf.header.moreFragments then do
          let (error, buf, c) ← handleFragmented env c buf
          if error then c.msgError buf else return { c with incomingMsg := none }
        else if buf.header.messageType = .fragment then do
          let (error, buf, c) ← handleFragmented env c buf
          if error then c.msgError buf else dispatch env c buf
        else dispatch env c buf

/-- `case GIOP_MSG_READING_HEADER`, and the test at the end of the loop: TRUE when it
goes round again. A message without a body leaves the loop here. -/
def finishHeader (env : Env) (c : Conn) (buf : RecvBuffer) : Except Fault (Conn × Bool) :=
  match recvMsgReadingBody env c buf with
  | (c, none) => do
      let c ← c.msgError buf
      return (c, false)
  | (c, some buf) =>
      let buf := { buf with state := .readingBody }
      if 0 < buf.leftToRead then .ok ({ c with incomingMsg := some buf }, true)
      else do
        let c ← dispatch env c buf
        return (c, false)

/-- The bytes of one read, put where `cur` points. -/
def RecvBuffer.store (buf : RecvBuffer) (bytes : List UInt8) : RecvBuffer :=
  let buf := { buf with leftToRead := buf.leftToRead - bytes.length, cur := buf.cur + bytes.length }
  match buf.state with
  | .readingHeader => { buf with rawHeader := buf.rawHeader ++ bytes }
  | _ => { buf with body := buf.body ++ bytes }

/-- What `link_connection_read` can return. -/
inductive ReadResult where
  | data (bytes : List UInt8)
  | wouldBlock
  | fatal
  deriving DecidableEq, Repr

/-- One round of the loop in `giop_connection_handle_input` for the message `buf`; TRUE
when it goes round again. -/
def handleRead (env : Env) (c : Conn) (buf : RecvBuffer) : ReadResult → Except Fault (Conn × Bool)
  | .wouldBlock => .ok ({ c with incomingMsg := some buf }, false)
  | .fatal => do
      let c ← c.msgError buf
      return (c, false)
  | .data bytes =>
      let buf := buf.store bytes
      if buf.leftToRead = 0 then
        match buf.state with
        | .readingHeader => finishHeader env c buf
        | .readingBody => do
            let c ← finishBody env c buf
            return (c, false)
        | .awaitingFragments | .ready => .error .assertion
      else .ok ({ c with incomingMsg := some buf }, true)

/-- `buf = cnx->incoming_msg`, a new buffer if there is none. The loop holds the buffer
until the round ends and then puts it back; nothing reads the pointer in between. -/
def Conn.takeBuf (c : Conn) : Conn × RecvBuffer :=
  match c.incomingMsg with
  | some buf => ({ c with incomingMsg := none }, buf)
  | none => ({ c with buffers := c.buffers + 1 }, .useBuf c.buffers)

/-- The process is gone, or the connection does not read any more. -/
def Conn.dead (c : Conn) : Bool := c.fault.isSome || c.status ≠ .connected

def Conn.record (c : Conn) : Except Fault (Conn × Bool) → Conn × Bool
  | .error fault => ({ c with fault := some fault }, false)
  | .ok r => r

/-- What the transport brings: some bytes at once, nothing yet, or its end. -/
inductive Arrival where
  | chunk (first : UInt8) (rest : List UInt8)
  | block
  | hangup
  deriving DecidableEq, Repr

/-- `link_connection_read` of `len` bytes. The length is passed as an `int`; a negative
one makes `read` return more than `len`. -/
def linkRead (c : Conn) (len : Nat) : List Arrival → Except Fault ReadResult × List Arrival
  | arrivals =>
      if len = 0 then (.ok .wouldBlock, arrivals)
      else if c.status ≠ .connected then (.ok .fatal, arrivals)
      else
        match arrivals with
        | [] => (.ok .wouldBlock, [])
        | .block :: later => (.ok .wouldBlock, later)
        | .hangup :: later => (.ok .fatal, later)
        | .chunk b bs :: later =>
            if 2^31 ≤ len then (.error .readAssertion, later)
            else
              match (b :: bs).drop len with
              | [] => (.ok (.data (b :: bs)), later)
              | b' :: bs' => (.ok (.data ((b :: bs).take len)), .chunk b' bs' :: later)

def Arrival.size : Arrival → Nat
  | .chunk _ rest => rest.length + 1
  | .block => 1
  | .hangup => 1

def arrivalsSize (arrivals : List Arrival) : Nat := (arrivals.map Arrival.size).sum

theorem linkRead_size {c : Conn} {len : Nat} {arrivals later : List Arrival} {bytes : List UInt8}
    (h : linkRead c len arrivals = (.ok (.data bytes), later)) :
    arrivalsSize later < arrivalsSize arrivals := by
  unfold linkRead at h
  by_cases h0 : len = 0
  · simp [h0] at h
  by_cases hs : c.status ≠ .connected
  · simp [h0, hs] at h
  rw [if_neg h0, if_neg hs] at h
  cases arrivals with
  | nil => simp at h
  | cons arrival rest =>
    cases arrival with
    | block => simp at h
    | hangup => simp at h
    | chunk b bs =>
      by_cases hl : 2^31 ≤ len
      · simp only [if_pos hl, Prod.mk.injEq, reduceCtorEq, false_and] at h
      · simp only [if_neg hl] at h
        have hlen : ((b :: bs).drop len).length = (b :: bs).length - len := List.length_drop
        cases hd : (b :: bs).drop len with
        | nil =>
          simp only [hd, Prod.mk.injEq] at h
          simp [arrivalsSize, Arrival.size, ← h.2]
        | cons b' bs' =>
          simp only [hd, Prod.mk.injEq] at h
          rw [hd] at hlen
          simp only [List.length_cons] at hlen
          simp only [arrivalsSize, Arrival.size, ← h.2, List.map_cons, List.sum_cons]
          omega

theorem handleRead_again {env : Env} {c c' : Conn} {buf : RecvBuffer} {r : ReadResult}
    (h : c.record (handleRead env c buf r) = (c', true)) : ∃ bytes, r = .data bytes := by
  cases r with
  | data bytes => exact ⟨bytes, rfl⟩
  | wouldBlock => simp [handleRead, Conn.record] at h
  | fatal =>
    cases hm : c.msgError buf with
    | error fault => simp [handleRead, hm, Conn.record, bind, Except.bind] at h
    | ok c => simp [handleRead, hm, Conn.record, bind, Except.bind, pure, Except.pure] at h

/-- `giop_connection_handle_input` -/
def handleInput (env : Env) (c : Conn) (arrivals : List Arrival) : Conn × List Arrival :=
  let start := c.takeBuf
  match _hr : linkRead start.1 start.2.leftToRead arrivals with
  | (.error fault, later) => ({ start.1 with fault := some fault }, later)
  | (.ok r, later) =>
      match _ha : start.1.record (handleRead env start.1 start.2 r) with
      | (c', true) => handleInput env c' later
      | (c', false) => (c', later)
  termination_by arrivalsSize arrivals
  decreasing_by
    obtain ⟨bytes, rfl⟩ := handleRead_again _ha
    exact linkRead_size _hr

/-- The main loop calls `giop_connection_handle_input` again and again while there is
input and the connection is watched. -/
def drive (env : Env) (c : Conn) (arrivals : List Arrival) : Conn :=
  if c.dead ∨ arrivals = [] then c
  else
    let r := handleInput env c arrivals
    if arrivalsSize r.2 < arrivalsSize arrivals then drive env r.1 r.2 else r.1
  termination_by arrivalsSize arrivals

/-- One read and what is done with it. A read returns at most what it is asked for; one
that cannot happen counts as one that found nothing. -/
def roundOn (env : Env) (c : Conn) (buf : RecvBuffer) : ReadResult → Conn
  | .data bytes =>
      if bytes = [] ∨ buf.leftToRead < bytes.length then { c with incomingMsg := some buf }
      else if 2^31 ≤ buf.leftToRead then { c with fault := some .readAssertion }
      else (c.record (handleRead env c buf (.data bytes))).1
  | .wouldBlock => { c with incomingMsg := some buf }
  | .fatal => (c.record (handleRead env c buf .fatal)).1

/-- One round on a watched connection. -/
def round (env : Env) (c : Conn) (r : ReadResult) : Conn :=
  if c.dead then c else roundOn env c.takeBuf.1 c.takeBuf.2 r

end ORBit2
