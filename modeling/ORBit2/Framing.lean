import ORBit2.Chunking

/-! What the loop of `giop_connection_handle_input` holds between two reads: a header or
a body, so far as it has arrived. -/

set_option autoImplicit false

namespace ORBit2
open Words Runs

structure RecvBuffer.ReadsHeader (buf : RecvBuffer) : Prop where
  state : buf.state = .readingHeader
  count : buf.rawHeader.length + buf.leftToRead = 12
  body : buf.body = []

structure RecvBuffer.ReadsBody (env : Env) (isAuth : Bool) (buf : RecvBuffer) : Prop where
  state : buf.state = .readingBody
  parsed : parseHeader env.host buf.rawHeader = some buf.header
  stop : buf.stop = 12 + buf.header.messageSize
  count : buf.data.length + buf.leftToRead = buf.stop
  limit : isAuth = false → buf.header.messageSize ≤ env.limit
  owned : buf.freeBody = true
  block : buf.block ≠ none

/-- What the loop holds between two reads. -/
def RecvBuffer.Reading (env : Env) (isAuth : Bool) (buf : RecvBuffer) : Prop :=
  buf.ReadsHeader ∨ buf.ReadsBody env isAuth

/-- A whole message behind `giop_recv_buffer_demarshal`. -/
structure RecvBuffer.Arrived (env : Env) (isAuth : Bool) (buf : RecvBuffer) : Prop where
  parsed : parseHeader env.host buf.rawHeader = some buf.header
  stop : buf.stop = 12 + buf.header.messageSize
  full : buf.data.length = buf.stop
  limit : isAuth = false → buf.header.messageSize ≤ env.limit
  owned : buf.freeBody = true
  block : buf.block ≠ none
  start : buf.header.messageType = .fragment → buf.cur = 12

/-- A connection between two reads holds a message that is being read. -/
def Conn.Framed (env : Env) (c : Conn) : Prop :=
  ∀ buf, c.incomingMsg = some buf → buf.Reading env c.isAuth

section
variable {env : Env} {c c' : Conn} {buf buf' buf₁ : RecvBuffer} {r : ReadResult}

@[simp] theorem Conn.takeBuf_incomingFrags (c : Conn) :
    c.takeBuf.1.incomingFrags = c.incomingFrags := by
  unfold Conn.takeBuf
  cases c.incomingMsg <;> rfl

@[simp] theorem Conn.takeBuf_isAuth (c : Conn) : c.takeBuf.1.isAuth = c.isAuth := by
  unfold Conn.takeBuf
  cases c.incomingMsg <;> rfl

@[simp] theorem Conn.takeBuf_gone (c : Conn) : c.takeBuf.1.gone = c.gone := by
  unfold Conn.takeBuf
  cases c.incomingMsg <;> rfl

@[simp] theorem RecvBuffer.data_length (buf : RecvBuffer) :
    buf.data.length = 12 + buf.body.length := by
  rw [RecvBuffer.data, List.length_append, List.length_replicate]

theorem RecvBuffer.Reading.store {isAuth : Bool} {bytes : List UInt8}
    (h : buf.Reading env isAuth) (hlen : bytes.length ≤ buf.leftToRead) :
    (buf.store bytes).Reading env isAuth := by
  rcases h with ⟨hs, hc, hb⟩ | ⟨hs, hp, hst, hc, hl, ho, hk⟩
  · refine .inl ⟨by rw [RecvBuffer.store_state, hs], ?_, ?_⟩
    · simp only [RecvBuffer.store, hs, List.length_append]
      omega
    · simp only [RecvBuffer.store, hs, hb]
  · refine .inr ⟨by rw [RecvBuffer.store_state, hs], ?_, ?_, ?_, ?_, ?_, ?_⟩
    · simpa only [RecvBuffer.store, hs] using hp
    · simpa only [RecvBuffer.store, hs] using hst
    · rw [RecvBuffer.data_length] at hc ⊢
      simp only [RecvBuffer.store, hs, List.length_append]
      omega
    · simpa only [RecvBuffer.store, hs] using hl
    · simpa only [RecvBuffer.store, hs] using ho
    · simpa only [RecvBuffer.store, hs] using hk

theorem demarshal_fragment {host : Endian} (ht : buf.header.messageType = .fragment)
    (h : buf.demarshal host = .ok buf') : buf' = buf := by
  unfold RecvBuffer.demarshal at h
  rw [ht, decodeFunc] at h
  exact (Except.ok.inj h).symm

/-- A body that is complete and was decoded. -/
theorem RecvBuffer.Reading.arrived {isAuth : Bool} {bytes : List UInt8}
    (h : buf.Reading env isAuth) (hs : buf.state = .readingBody)
    (hlen : bytes.length = buf.leftToRead)
    (hd : (buf.store bytes).readied.demarshal env.host = .ok buf₁) :
    buf₁.Arrived env isAuth := by
  rcases h.store hlen.le with hr | hr
  · have he := hr.state
    rw [RecvBuffer.store_state, hs] at he
    cases he
  have hcount := hr.count
  rw [RecvBuffer.store_leftToRead, hlen, Nat.sub_self] at hcount
  have hframe := hd
  obtain ⟨u, block, cur, rfl⟩ := RecvBuffer.demarshal_frame hframe
  refine ⟨hr.parsed, hr.stop, hcount, hr.limit, hr.owned, hr.block, fun ht => ?_⟩
  have he := @demarshal_fragment (buf.store bytes).readied _ _ ht hd
  exact congrArg RecvBuffer.cur he

theorem Conn.fresh_framed (isAuth : Bool) : (Conn.fresh isAuth).Framed env :=
  fun _ h => by cases h

theorem Conn.Framed.takeBuf (h : c.Framed env) : c.takeBuf.2.Reading env c.isAuth := by
  unfold Conn.takeBuf
  cases hm : c.incomingMsg with
  | some buf => exact h buf hm
  | none => exact .inl ⟨rfl, rfl, rfl⟩

theorem Conn.framed_of_idle (h : c.incomingMsg = none) : c.Framed env := by
  intro buf hb
  rw [h] at hb
  cases hb

/-- A message that a read completes has arrived as a whole. -/
theorem completed_arrived (h : c.Framed env) (hb : completed env c r = some buf) :
    buf.Arrived env c.isAuth := by
  obtain ⟨bytes, -, hlen, hs, hd⟩ := completed_some hb
  exact h.takeBuf.arrived hs hlen hd

/-- Nothing a peer sends brings the reading out of step. -/
theorem round_framed (h : c.Framed env) : (round env c r).Framed env := by
  have hr := h.takeBuf
  have hround := round_cases env c r
  generalize round env c r = c' at hround ⊢
  cases hround with
  | dead hd => exact h
  | waits hd hb =>
    intro buf hb
    obtain rfl := Option.some.inj hb
    simpa using hr
  | stored hd hlen =>
    intro buf hb
    obtain rfl := Option.some.inj hb
    simpa using hr.store hlen.le
  | hungUp hd hm =>
    obtain ⟨-, rfl⟩ := Conn.msgError_eq_ok.mp hm
    exact Conn.framed_of_idle rfl
  | @header bytes _ _ hd hne hlen hs hcase =>
    cases hcase with
    | refused hc hm =>
      obtain ⟨-, rfl⟩ := Conn.msgError_eq_ok.mp hm
      exact Conn.framed_of_idle rfl
    | reading hp hl hpos =>
      intro buf hb
      obtain rfl := Option.some.inj hb
      refine .inr ⟨rfl, hp, rfl, ?_, hl, rfl, by simp [RecvBuffer.opened]⟩
      rcases hr.store hlen.le with hrh | hrb
      · rw [RecvBuffer.data_length]
        simp [RecvBuffer.opened, hrh.body]
      · have he := hrb.state
        rw [RecvBuffer.store_state, hs] at he
        cases he
    | empty hp h0 hd =>
      obtain ⟨-, rfl⟩ := dispatch_eq_ok.mp hd
      exact Conn.framed_of_idle rfl
  | body hd hne hlen hs hcase => exact Conn.framed_of_idle hcase.incomingMsg
  | faulted hd hcase => exact Conn.framed_of_idle c.takeBuf_incomingMsg

end

end ORBit2
