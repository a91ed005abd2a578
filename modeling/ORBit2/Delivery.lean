import ORBit2.Effects

/-! A whole message at a time: what the two reads that bring a header and its body do to
a connection that waits for a message. -/

set_option autoImplicit false

namespace ORBit2
open Words Runs

/-- A message that arrived, as `giop_recv_buffer_demarshal` is given it. -/
def RecvBuffer.ofMessage (id block : Nat) (header : MsgHeader) (body : List UInt8) : RecvBuffer :=
  { id := id, rawHeader := header.encode, header := header, decoded := {}, decodedIn := none,
    block := some block, body := body, cur := 12, stop := 12 + header.messageSize,
    state := .ready, leftToRead := 0, freeBody := true }

/-- The connection behind a header that announces a body. -/
def Conn.reading (c : Conn) (header : MsgHeader) : Conn :=
  { c with
    buffers := c.buffers + 1
    allocs := c.allocs + 1
    incomingMsg := some
      (((RecvBuffer.useBuf c.buffers).store header.encode).opened header c.allocs) }

section
variable {env : Env} {c c' : Conn} {header : MsgHeader} {body : List UInt8} {buf : RecvBuffer}
  {r : ReadResult} {id : Nat}

theorem Conn.takeBuf_idle (h : c.incomingMsg = none) :
    c.takeBuf = ({ c with buffers := c.buffers + 1 }, .useBuf c.buffers) := by
  unfold Conn.takeBuf
  rw [h]

theorem Conn.takeBuf_reading (c : Conn) (header : MsgHeader) :
    (c.reading header).takeBuf = ({ c with
      buffers := c.buffers + 1, allocs := c.allocs + 1, incomingMsg := none },
      ((RecvBuffer.useBuf c.buffers).store header.encode).opened header c.allocs) := rfl

theorem MsgHeader.rawHeader_store (n : Nat) (header : MsgHeader) :
    ((RecvBuffer.useBuf n).store header.encode).rawHeader = header.encode := rfl

/-- A whole header, on a connection that survives it. -/
theorem round_header (hidle : c.incomingMsg = none) (hpos : 0 < header.messageSize)
    (hsize : header.messageSize < 2^32)
    (halive : (round env c (.data header.encode)).dead = false) :
    round env c (.data header.encode) = c.reading header := by
  have htake := Conn.takeBuf_idle hidle
  have hlen := header.encode_length
  have hround := round_cases env c (.data header.encode)
  generalize round env c (.data header.encode) = c' at hround halive ⊢
  cases hround with
  | dead hd =>
    rw [hd] at halive
    cases halive
  | waits hd hb =>
    rw [htake] at hb
    rcases hb _ rfl with he | he
    · rw [he] at hlen
      cases hlen
    · simp [RecvBuffer.useBuf, hlen] at he
  | stored hd he =>
    rw [htake] at he
    simp [RecvBuffer.useBuf, hlen] at he
  | header hd hne he hs hcase =>
    rw [htake] at hcase
    have hparse := parseHeader_encode env.host header hsize
    cases hcase with
    | refused hc hm =>
      rw [Conn.msgError_dead hm] at halive
      cases halive
    | reading hp hl hpos' =>
      rw [MsgHeader.rawHeader_store, hparse] at hp
      obtain rfl := Option.some.inj hp
      rfl
    | empty hp h0 hdis =>
      rw [MsgHeader.rawHeader_store, hparse] at hp
      obtain rfl := Option.some.inj hp
      omega
  | body hd hne he hs hcase =>
    rw [htake] at hs
    cases hs
  | faulted hd hcase => simp [Conn.dead] at halive

theorem store_ofMessage (n : Nat) (c : Conn) (h : body.length = header.messageSize) :
    ((((RecvBuffer.useBuf n).store header.encode).opened header c.allocs).store body).readied =
      RecvBuffer.ofMessage n c.allocs header body := by
  simp [RecvBuffer.opened, RecvBuffer.store, RecvBuffer.useBuf, RecvBuffer.readied,
    RecvBuffer.ofMessage, h]

/-- The body that was announced completes the message. -/
theorem completed_reading (hdead : c.dead = false) (hpos : 0 < header.messageSize)
    (h : body.length = header.messageSize) :
    completed env (c.reading header) (.data body) =
      ((RecvBuffer.ofMessage c.buffers c.allocs header body).demarshal env.host).toOption := by
  have hne : body ≠ [] := by
    rintro rfl
    simp at h
    omega
  have hd : (c.reading header).dead = false := hdead
  have hleft : body.length = (c.reading header).takeBuf.2.leftToRead := h
  have hs : (c.reading header).takeBuf.2.state = .readingBody := rfl
  simp only [completed, hd, hne, ne_eq, not_false_eq_true, ← hleft, hs, and_self, if_true]
  rw [Conn.takeBuf_reading, store_ofMessage c.buffers c h]

/-- What can happen to the body that was announced. -/
theorem round_body (hdead : c.dead = false) (hpos : 0 < header.messageSize)
    (h : body.length = header.messageSize) :
    BodyCase env (c.reading header).takeBuf.1 ((c.reading header).takeBuf.2.store body)
        (round env (c.reading header) (.data body)) ∨
      ∃ fault, FaultCase env (c.reading header) (.data body) fault ∧
        round env (c.reading header) (.data body) =
          { (c.reading header).takeBuf.1 with fault := some fault } := by
  have hleft : (c.reading header).takeBuf.2.leftToRead = header.messageSize := rfl
  have hround := round_cases env (c.reading header) (.data body)
  generalize round env (c.reading header) (.data body) = c' at hround ⊢
  cases hround with
  | dead hd =>
    rw [show (c.reading header).dead = false from hdead] at hd
    cases hd
  | waits hd hb =>
    rcases hb _ rfl with rfl | he
    · simp at h
      omega
    · omega
  | stored hd he => omega
  | header hd hne he hs hcase => cases hs
  | body hd hne he hs hcase => exact .inl hcase
  | faulted hd hcase => exact .inr ⟨_, hcase, rfl⟩

/-- Behind its body a message is not in the way any more. -/
theorem round_body_idle (hdead : c.dead = false) (hpos : 0 < header.messageSize)
    (h : body.length = header.messageSize) :
    (round env (c.reading header) (.data body)).incomingMsg = none := by
  rcases @round_body env _ _ _ hdead hpos h with hcase | ⟨fault, -, he⟩
  · exact hcase.incomingMsg
  · rw [he]
    rfl

theorem run_alive {rs : List ReadResult} (h : (run (round env) c rs).dead = false) :
    c.dead = false := by
  cases hd : c.dead with
  | false => rfl
  | true =>
    rw [run_dead hd, hd] at h
    cases h

/-- A header that announces no body is a whole message. -/
theorem round_header_idle (hidle : c.incomingMsg = none) (h0 : header.messageSize = 0)
    (halive : (round env c (.data header.encode)).dead = false) :
    (round env c (.data header.encode)).incomingMsg = none := by
  have htake := Conn.takeBuf_idle hidle
  have hlen := header.encode_length
  have hround := round_cases env c (.data header.encode)
  generalize round env c (.data header.encode) = c' at hround halive ⊢
  cases hround with
  | dead hd => exact hidle
  | waits hd hb =>
    rw [htake] at hb
    rcases hb _ rfl with he | he
    · rw [he] at hlen
      cases hlen
    · simp [RecvBuffer.useBuf, hlen] at he
  | stored hd he =>
    rw [htake] at he
    simp [RecvBuffer.useBuf, hlen] at he
  | header hd hne he hs hcase =>
    rw [htake] at hcase
    have hparse := parseHeader_encode env.host header (by omega)
    cases hcase with
    | refused hc hm =>
      rw [Conn.msgError_dead hm] at halive
      cases halive
    | reading hp hl hpos' =>
      rw [MsgHeader.rawHeader_store, hparse] at hp
      obtain rfl := Option.some.inj hp
      omega
    | empty hp h0 hdis =>
      obtain ⟨-, rfl⟩ := dispatch_eq_ok.mp hdis
      rfl
  | body hd hne he hs hcase =>
    rw [htake] at hs
    cases hs
  | faulted hd hcase => simp [Conn.dead] at halive

theorem completed_header (hidle : c.incomingMsg = none) (bytes : List UInt8) :
    completed env c (.data bytes) = none := by
  refine completed_eq_none fun _ _ hs => ?_
  rw [Conn.takeBuf_idle hidle] at hs
  cases hs

theorem orderly_header (hidle : c.incomingMsg = none) (bytes : List UInt8) :
    orderly env c (.data bytes) := by
  unfold orderly
  rw [completed_header hidle]
  trivial

end

end ORBit2
