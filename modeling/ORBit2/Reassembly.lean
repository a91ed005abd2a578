import ORBit2.Delivery
import ORBit2.Stability

/-! A request in fragments, between the fragments of other requests, against the same
request in one message. -/

set_option autoImplicit false

namespace ORBit2
open Words Runs

def fragmentHeader (flags : UInt8) (payload : List UInt8) : MsgHeader :=
  ⟨.v1_2, flags, .fragment, 4 + payload.length⟩

def fragmentBody (id : Nat) (flags : UInt8) (payload : List UInt8) : List UInt8 :=
  (fragmentHeader flags payload).sender.split 4 id ++ payload

/-- A fragment that arrived, and what is left of it behind its request id. -/
def fragmentBuf (n block id : Nat) (flags : UInt8) (payload : List UInt8) : RecvBuffer :=
  .ofMessage n block (fragmentHeader flags payload) (fragmentBody id flags payload)

def fragmentPart (n block id : Nat) (flags : UInt8) (payload : List UInt8) : RecvBuffer :=
  { fragmentBuf n block id flags payload with cur := 16 }

/-- What arrives between the first message of a request and its last fragment: a part
of that request, or a message of another. -/
inductive Turn where
  | fragment (flags : UInt8) (payload : List UInt8)
  | other (header : MsgHeader) (body : List UInt8)

def Turn.header : Turn → MsgHeader
  | .fragment flags payload => fragmentHeader flags payload
  | .other header _ => header

def Turn.body (id : Nat) : Turn → List UInt8
  | .fragment flags payload => fragmentBody id flags payload
  | .other _ body => body

def Turn.payload : Turn → List UInt8
  | .fragment _ payload => payload
  | .other _ _ => []

def deliver (env : Env) (id : Nat) (c : Conn) (t : Turn) : Conn :=
  run (round env) c (readMessage t.header (t.body id))

/-- What a read completes belongs to another GIOP 1.2 request, if to any. -/
def elsewhere (env : Env) (id : Nat) (c : Conn) (r : ReadResult) : Prop :=
  match completed env c r with
  | none => True
  | some buf =>
      match messageId env buf with
      | none => True
      | some (_, id') => buf.fragmented = true → id' ≠ id ∧ buf.header.version ≠ .v1_1

instance (env : Env) (id : Nat) (c : Conn) (r : ReadResult) :
    Decidable (elsewhere env id c r) := by
  unfold elsewhere
  induction completed env c r using Option.casesOn with
  | none => infer_instance
  | some buf =>
    dsimp only
    induction messageId env buf using Option.casesOn <;> infer_instance

/-- More of the request is to follow; a message of another is well framed, keeps the
lists in order and is elsewhere. -/
def Turn.allowed (env : Env) (id : Nat) (c : Conn) : Turn → Prop
  | .fragment flags payload => (fragmentHeader flags payload).moreFragments = true
  | .other header body => body.length = header.messageSize ∧ header.messageSize < 2^32 ∧
      orderly env (round env c (.data header.encode)) (.data body) ∧
      elsewhere env id (round env c (.data header.encode)) (.data body)

instance (env : Env) (id : Nat) (c : Conn) (t : Turn) : Decidable (t.allowed env id c) := by
  unfold Turn.allowed
  split <;> infer_instance

/-- The list of a request, if one is open. -/
def Conn.openFor (c : Conn) (id : Nat) : Option FragList :=
  c.incomingFrags.find? (·.head.requestId = id)

section
variable {env : Env} {c c' : Conn} {buf buf' : RecvBuffer} {r : ReadResult} {id : Nat}
  {l : FragList} {flags : UInt8} {payload : List UInt8}

theorem fragmentBody_length (id : Nat) (flags : UInt8) (payload : List UInt8) :
    (fragmentBody id flags payload).length = (fragmentHeader flags payload).messageSize := by
  simp [fragmentBody, fragmentHeader]

/-- The request id in front of a fragment is found. -/
theorem messageId_fragment (n block : Nat) (hid : id < 2^32) :
    messageId env (fragmentBuf n block id flags payload) =
      some (fragmentPart n block id flags payload, id) := by
  unfold fragmentPart
  generalize hbuf : fragmentBuf n block id flags payload = buf
  have hheader : buf.header = fragmentHeader flags payload := by rw [← hbuf]; rfl
  have hdata : buf.data = List.replicate 12 0 ++
      (fragmentHeader flags payload).sender.split 4 id ++ payload := by
    rw [← hbuf, List.append_assoc]
    rfl
  have hcur : buf.cur = 12 := by rw [← hbuf]; rfl
  let f : Frame := ⟨0, env.host, (fragmentHeader flags payload).sender, buf.data, Nat.dvd_zero 8⟩
  let b : PlainBuffer := ⟨12, []⟩
  have hcursor : buf.cursor env.host = f.at b := by
    simp [RecvBuffer.cursor, Frame.at, f, b, PlainBuffer.pos, hheader, hcur]
  have hlen : (f.sender.split 4 id).length = 4 := by simp
  have hwithin : (b.append (f.sender.split 4 id)).Within f.data :=
    ⟨List.replicate 12 0, payload, by simp [b, PlainBuffer.append], hdata⟩
  have halign := f.align_at (b := b) (n := 4) (by decide)
  rw [show b.align 4 = b by decide] at halign
  have hneed := f.need_at hwithin
  have hadvance := f.advance_at (b := b) (f.sender.split 4 id)
  rw [hlen] at hneed hadvance
  have hid' : fragmentId (f.at b) = .ok (id, f.at (b.append (f.sender.split 4 id))) := by
    unfold fragmentId Dec.word
    rw [Dec.bind_ok halign, Dec.bind_ok hneed, Dec.bind_ok (f.peek_at (by simpa using hid) hwithin),
      Dec.bind_ok hadvance, Dec.pure_apply]
  unfold messageId
  simp only [hheader, fragmentHeader, reduceCtorEq, if_false, hcursor, hid']
  simp [Frame.at, PlainBuffer.pos, PlainBuffer.append, b]

/-- The part of a request that a fragment brings. -/
theorem remaining_fragment (n block id : Nat) :
    (fragmentPart n block id flags payload).remaining = payload := by
  have hdata : (fragmentPart n block id flags payload).data =
      (List.replicate 12 0 ++ (fragmentHeader flags payload).sender.split 4 id) ++ payload := by
    rw [List.append_assoc]
    rfl
  rw [RecvBuffer.remaining, hdata]
  refine List.drop_left' ?_
  simp [fragmentPart]

theorem find?_zipper {before after : List FragList} {x : FragList} (hx : x.head.requestId ≠ id) :
    (before ++ x :: after).find? (·.head.requestId = id) =
      (before ++ after).find? (·.head.requestId = id) := by
  simp [List.find?_append, hx]

theorem elsewhere_apply (h : elsewhere env id c r) (hb : completed env c r = some buf)
    {id' : Nat} (hm : messageId env buf = some (buf', id')) (hf : buf.fragmented = true) :
    id' ≠ id ∧ buf.header.version ≠ .v1_1 := by
  unfold elsewhere at h
  simp only [hb, hm] at h
  exact h hf

theorem Conn.Joins.head_id {before after : List FragList} (h : c.Joins buf id before l after)
    (hv : buf.header.version ≠ .v1_1) :
    l.head.requestId = id ∧ ∀ x ∈ before, x.head.requestId ≠ id := by
  rcases h.found with h | ⟨he, -⟩
  · exact h
  · exact absurd he hv

/-- Messages of other requests leave the list of this one alone. -/
theorem Effect.openFor_elsewhere (h : Effect env c r c') (ho : orderly env c r)
    (he : elsewhere env id c r) : c'.openFor id = c.openFor id := by
  unfold Conn.openFor
  cases h with
  | quiet hfrags hdis hwhy => rw [hfrags]
  | empty hr hlen hs hp h0 hto hfrags hdis => rw [hfrags]
  | plain hb hf hto hfrags hdis => rw [hfrags]
  | @opened buf buf' id' hb hm hnot hmore hfrags hdis =>
    have hf : buf.fragmented = true := by simp [RecvBuffer.fragmented, hmore]
    obtain ⟨hne, hv⟩ := elsewhere_apply he hb hm hf
    have hord := orderly_apply ho hb hf
    have htype : buf.header.messageType ≠ .fragment :=
      fun ht => hnot (hord.notOrphan hm ht hmore)
    have hhead : buf'.requestId ≠ id := by
      rcases messageId_some hm with ⟨-, rfl, rfl⟩ | ⟨ht, -⟩ | ⟨ht, -⟩
      · exact hne
      · exact absurd ht htype
      · exact absurd ht htype
    rw [hfrags]
    exact @find?_zipper _ [] _ _ hhead
  | @joined buf buf' id' before after l hb hm hj hmore hfrags hdis =>
    have hf : buf.fragmented = true := by simp [RecvBuffer.fragmented, hmore]
    obtain ⟨hne, hv⟩ := elsewhere_apply he hb hm hf
    obtain ⟨hid, -⟩ := hj.head_id hv
    have hold : l.head.requestId ≠ id := hid ▸ hne
    rw [hfrags, hj.lists, find?_zipper hold, find?_zipper (by exact hold)]
  | @whole buf buf' id' before after l block hb hm hj hmore hlast hle hblock hto hfrags hdis =>
    obtain ⟨hne, hv⟩ := elsewhere_apply he hb hm (by simp [RecvBuffer.fragmented, hlast])
    obtain ⟨hid, -⟩ := hj.head_id hv
    rw [hfrags, hj.lists, find?_zipper (hid ▸ hne)]
  | @dropped buf buf' id' before after l hb hm hj hmore hlast hfrags hdis hwhy =>
    obtain ⟨hne, hv⟩ := elsewhere_apply he hb hm (by simp [RecvBuffer.fragmented, hlast])
    obtain ⟨hid, -⟩ := hj.head_id hv
    rw [hfrags, hj.lists, find?_zipper (hid ▸ hne)]

/-- What is done with a message that more fragments follow. -/
theorem Effect.kept (h : Effect env c r c') (halive : c'.dead = false)
    (hb : completed env c r = some buf) (hmore : buf.header.moreFragments = true)
    (hm : messageId env buf = some (buf', id)) :
    (¬ c.Pending buf id ∧ c'.incomingFrags = ⟨buf', []⟩ :: c.incomingFrags) ∨
    ∃ before l after, c.Joins buf id before l after ∧
      c'.incomingFrags = before ++ ⟨addLength l.head buf', l.tail ++ [buf']⟩ :: after := by
  have hfrag : buf.fragmented = true := by simp [RecvBuffer.fragmented, hmore]
  cases h with
  | quiet hfrags hdis hwhy =>
    rcases hwhy with he | he | ⟨buf₁, he, hf, -⟩
    · rw [hb] at he
      cases he
    · rw [halive] at he
      cases he
    · rw [hb] at he
      obtain rfl := Option.some.inj he
      rw [hfrag] at hf
      cases hf
  | empty hr hlen hs hp h0 hto hfrags hdis =>
    obtain ⟨bytes, hr', -, hs', -⟩ := completed_some hb
    rw [hs] at hs'
    cases hs'
  | plain hb' hf hto hfrags hdis =>
    rw [hb] at hb'
    obtain rfl := Option.some.inj hb'
    rw [hfrag] at hf
    cases hf
  | opened hb' hm' hnot hmore' hfrags hdis =>
    rw [hb] at hb'
    obtain rfl := Option.some.inj hb'
    rw [hm] at hm'
    obtain ⟨rfl, rfl⟩ := Prod.mk.inj (Option.some.inj hm')
    exact .inl ⟨hnot, hfrags⟩
  | joined hb' hm' hj hmore' hfrags hdis =>
    rw [hb] at hb'
    obtain rfl := Option.some.inj hb'
    rw [hm] at hm'
    obtain ⟨rfl, rfl⟩ := Prod.mk.inj (Option.some.inj hm')
    exact .inr ⟨_, _, _, hj, hfrags⟩
  | whole hb' hm' hj hmore' hlast hle hblock hto hfrags hdis =>
    rw [hb] at hb'
    obtain rfl := Option.some.inj hb'
    rw [hmore] at hmore'
    cases hmore'
  | dropped hb' hm' hj hmore' hlast hfrags hdis hwhy =>
    rw [hb] at hb'
    obtain rfl := Option.some.inj hb'
    rw [hmore] at hmore'
    cases hmore'

theorem Conn.openFor_pending (h : c.openFor id = some l) : c.Pending buf id :=
  .inl ⟨l, List.mem_of_find?_eq_some h, by simpa using List.find?_some h⟩

/-- The list that is open for an id is the one its messages join. -/
theorem openFor_zipper {before after : List FragList} {l' : FragList}
    (h : c.openFor id = some l) (hl : c.incomingFrags = before ++ l' :: after)
    (hid : l'.head.requestId = id) (hbefore : ∀ x ∈ before, x.head.requestId ≠ id) : l' = l := by
  have hnone : before.find? (·.head.requestId = id) = none := by
    rw [List.find?_eq_none]
    intro x hx
    simpa using hbefore x hx
  unfold Conn.openFor at h
  rw [hl, List.find?_append, hnone] at h
  simpa [hid] using h

/-- A fragment that more are to follow goes behind the rest of its request. -/
theorem Effect.openFor_fragment (h : Effect env c r c') (halive : c'.dead = false)
    (hb : completed env c r = some buf) (hm : messageId env buf = some (buf', id))
    (hv : buf.header.version ≠ .v1_1) (hmore : buf.header.moreFragments = true)
    (hl : c.openFor id = some l) :
    c'.openFor id = some ⟨addLength l.head buf', l.tail ++ [buf']⟩ := by
  rcases h.kept halive hb hmore hm with ⟨hnot, -⟩ | ⟨before, l', after, hj, hfrags⟩
  · exact absurd (Conn.openFor_pending hl) hnot
  obtain ⟨hid, hbefore⟩ := hj.head_id hv
  obtain rfl := openFor_zipper hl hj.lists hid hbefore
  have hnone : before.find? (·.head.requestId = id) = none := by
    rw [List.find?_eq_none]
    intro x hx
    simpa using hbefore x hx
  have hnew : (addLength l'.head buf').requestId = id := hid
  unfold Conn.openFor
  rw [hfrags, List.find?_append, hnone]
  simp [hnew]

/-- A first message with `n` bytes of fragments counted in. -/
def RecvBuffer.longer (buf : RecvBuffer) (n : Nat) : RecvBuffer :=
  { buf with header := { buf.header with messageSize := buf.header.messageSize + n } }

/-- A request of which the first message and so many bytes of fragments have arrived. -/
structure Gathering (env : Env) (id : Nat) (first : RecvBuffer) (arrived : List UInt8)
    (c : Conn) : Prop where
  idle : c.incomingMsg = none
  sound : c.Sound
  framed : c.Framed env
  gathered : ∃ l, c.openFor id = some l ∧ l.head = first.longer arrived.length ∧
    l.tail.flatMap RecvBuffer.remaining = arrived
  older : ∀ block, first.block = some block → block < c.allocs

theorem run_readMessage {header : MsgHeader} {body : List UInt8} (hpos : 0 < header.messageSize)
    (h : body.length = header.messageSize) : run (round env) c (readMessage header body) =
      round env (round env c (.data header.encode)) (.data body) := by
  have hne : body ≠ [] := by
    rintro rfl
    simp at h
    omega
  simp [readMessage, hne]

theorem addLength_longer {first : RecvBuffer} {n : Nat} (hle : buf.cur ≤ buf.stop)
    (h : first.header.messageSize + n + (buf.stop - buf.cur) < 2^32) :
    addLength (first.longer n) buf = first.longer (n + (buf.stop - buf.cur)) := by
  have hsize : (((first.header.messageSize + n : Nat) : Int) + (buf.stop - buf.cur : Int)) % 2^32 =
      (first.header.messageSize + (n + (buf.stop - buf.cur)) : Nat) := by
    omega
  simp only [addLength, RecvBuffer.longer, hsize, Int.toNat_natCast]

/-- The fragment as `handle_fragmented` is given it. -/
theorem completed_fragment (hdead : c.dead = false) :
    completed env (c.reading (fragmentHeader flags payload))
      (.data (fragmentBody id flags payload)) =
    some (fragmentBuf c.buffers c.allocs id flags payload) := by
  rw [completed_reading hdead (by simp [fragmentHeader]) (fragmentBody_length id flags payload)]
  rfl

/-- A fragment of a request that is being gathered is in order. -/
theorem orderly_fragment (hdead : c.dead = false) (hid : id < 2^32) (hl : c.openFor id = some l) :
    orderly env (c.reading (fragmentHeader flags payload))
      (.data (fragmentBody id flags payload)) := by
  unfold orderly
  rw [completed_fragment hdead]
  intro hf
  exact .of_pending (messageId_fragment _ _ hid)
    (Conn.openFor_pending (c := c.reading (fragmentHeader flags payload)) hl) (.inl rfl)

/-- A header that the connection survives sets it up for the body. -/
theorem reading_of_alive {header : MsgHeader} (hidle : c.incomingMsg = none) (hsound : c.Sound)
    (hframed : c.Framed env) (hpos : 0 < header.messageSize) (hsize : header.messageSize < 2^32)
    (halive : (round env c (.data header.encode)).dead = false) :
    round env c (.data header.encode) = c.reading header ∧ (c.reading header).Sound ∧
      (c.reading header).Framed env ∧ c.dead = false := by
  have he := round_header hidle hpos hsize halive
  have hs := round_sound (r := .data header.encode) hsound hframed (orderly_header hidle _)
  have hf := round_framed (r := .data header.encode) hframed
  rw [he] at hs hf
  exact ⟨he, hs, hf, @run_alive _ _ [.data header.encode] halive⟩

theorem older_reading {header : MsgHeader} {body : List UInt8} {n : Nat} (h : n < c.allocs) :
    n < (round env (c.reading header) (.data body)).allocs := by
  have hle := (round_frame env (c.reading header) (.data body)).2
  simp only [Conn.reading] at hle ⊢
  omega

section
variable {first : RecvBuffer} {arrived : List UInt8}

theorem fragmentPart_count (n block id : Nat) :
    (fragmentPart n block id flags payload).cur ≤ (fragmentPart n block id flags payload).stop ∧
    (fragmentPart n block id flags payload).stop - (fragmentPart n block id flags payload).cur =
      payload.length := by
  simp only [fragmentPart, fragmentBuf, RecvBuffer.ofMessage, fragmentHeader]
  omega

theorem Gathering.addLength_head (hhead : l.head = first.longer arrived.length) (n block : Nat)
    (htotal : first.header.messageSize + arrived.length + payload.length < 2^31) :
    addLength l.head (fragmentPart n block id flags payload) =
      first.longer (arrived ++ payload).length := by
  obtain ⟨hle, hcount⟩ := @fragmentPart_count flags payload n block id
  rw [hhead, addLength_longer hle (by omega), hcount, List.length_append]

/-- A part of the request is added. -/
theorem Gathering.fragment (h : Gathering env id first arrived c) (hid : id < 2^32)
    (hmore : (fragmentHeader flags payload).moreFragments = true)
    (htotal : first.header.messageSize + arrived.length + payload.length < 2^31)
    (halive : (deliver env id c (.fragment flags payload)).dead = false) :
    Gathering env id first (arrived ++ payload) (deliver env id c (.fragment flags payload)) := by
  have hpos : 0 < (fragmentHeader flags payload).messageSize := by simp [fragmentHeader]
  have hsize : (fragmentHeader flags payload).messageSize < 2^32 := by
    simp only [fragmentHeader]
    omega
  have hlen := fragmentBody_length id flags payload
  unfold deliver at halive ⊢
  simp only [Turn.header, Turn.body] at halive ⊢
  rw [run_readMessage hpos hlen] at halive ⊢
  obtain ⟨hreading, hsound, hframed, hdead⟩ := reading_of_alive h.idle h.sound h.framed hpos hsize
    (@run_alive _ _ [.data (fragmentBody id flags payload)] halive)
  rw [hreading] at halive ⊢
  obtain ⟨l, hl, hhead, htail⟩ := h.gathered
  have hopen := (round_effect env (c.reading (fragmentHeader flags payload))
    (.data (fragmentBody id flags payload))).openFor_fragment halive (completed_fragment hdead)
    (messageId_fragment _ _ hid) (by exact Version.noConfusion) hmore hl
  refine ⟨round_body_idle hdead hpos hlen,
    round_sound hsound hframed (orderly_fragment hdead hid hl), round_framed hframed,
    ⟨_, hopen, ?_, ?_⟩, fun block hb => older_reading (h.older block hb)⟩
  · exact Gathering.addLength_head hhead c.buffers c.allocs htotal
  · simp [htail, remaining_fragment]

/-- A message of another request changes nothing. -/
theorem Gathering.other {header : MsgHeader} {body : List UInt8}
    (h : Gathering env id first arrived c) (ht : (Turn.other header body).allowed env id c)
    (halive : (deliver env id c (.other header body)).dead = false) :
    Gathering env id first arrived (deliver env id c (.other header body)) := by
  obtain ⟨hlen, hsize, hord, helse⟩ := ht
  unfold deliver at halive ⊢
  simp only [Turn.header, Turn.body] at halive ⊢
  obtain ⟨l, hl, hhead, htail⟩ := h.gathered
  rcases Nat.eq_zero_or_pos header.messageSize with h0 | hpos
  · have hnil : body = [] := List.eq_nil_of_length_eq_zero (hlen.trans h0)
    have hread : run (round env) c (readMessage header body) =
        round env c (.data header.encode) := by
      simp [readMessage, hnil]
    rw [hread] at halive ⊢
    have helse' : elsewhere env id c (.data header.encode) := by
      unfold elsewhere
      rw [completed_header h.idle]
      trivial
    have hopen := (round_effect env c (.data header.encode)).openFor_elsewhere
      (orderly_header h.idle _) helse'
    refine ⟨round_header_idle h.idle h0 halive,
      round_sound h.sound h.framed (orderly_header h.idle _), round_framed h.framed,
      ⟨l, hopen.trans hl, hhead, htail⟩, fun block hb => ?_⟩
    exact Nat.lt_of_lt_of_le (h.older block hb) (round_frame env c _).2
  · rw [run_readMessage hpos hlen] at halive ⊢
    obtain ⟨hreading, hsound, hframed, hdead⟩ := reading_of_alive h.idle h.sound h.framed hpos
      hsize (@run_alive _ _ [.data body] halive)
    rw [hreading] at halive hord helse ⊢
    have hopen := (round_effect env (c.reading header) (.data body)).openFor_elsewhere hord helse
    exact ⟨round_body_idle hdead hpos hlen, round_sound hsound hframed hord,
      round_framed hframed, ⟨l, hopen.trans hl, hhead, htail⟩,
      fun block hb => older_reading (h.older block hb)⟩

/-- Everything between the first message and the last fragment. -/
theorem Gathering.turns {turns : List Turn} (h : Gathering env id first arrived c)
    (hid : id < 2^32) (ht : Meets (deliver env id) (Turn.allowed env id) c turns)
    (htotal : first.header.messageSize + (arrived ++ turns.flatMap Turn.payload).length < 2^31)
    (halive : (run (deliver env id) c turns).dead = false) :
    Gathering env id first (arrived ++ turns.flatMap Turn.payload)
      (run (deliver env id) c turns) := by
  induction turns generalizing c arrived with
  | nil => simpa using h
  | cons t turns ih =>
    obtain ⟨hallowed, hrest⟩ := ht
    have hd : (deliver env id c t).dead = false := by
      cases hd : (deliver env id c t).dead with
      | false => rfl
      | true =>
        have hfixed : run (deliver env id) (deliver env id c t) turns = deliver env id c t :=
          run_fixed (fun t' => by unfold deliver; exact run_dead hd _) turns
        rw [run_cons, hfixed, hd] at halive
        cases halive
    simp only [List.flatMap_cons, List.length_append] at htotal
    have hstep : Gathering env id first (arrived ++ t.payload) (deliver env id c t) := by
      cases t with
      | fragment flags payload =>
        simp only [Turn.payload] at htotal
        have hf : Gathering env id first (arrived ++ payload) _ :=
          h.fragment hid hallowed (by omega) hd
        exact hf
      | other header body => simpa [Turn.payload] using h.other hallowed hd
    have hall := ih hstep hrest (by simp only [List.length_append]; omega) halive
    simpa [List.append_assoc] using hall

/-- A request that arrived in one message, demarshalled. -/
def requestBuf (n block : Nat) (header : MsgHeader) (body : List UInt8) (u : MsgUnion)
    (cur : Nat) : RecvBuffer :=
  { RecvBuffer.ofMessage n block header body with
    decoded := u, decodedIn := some block, cur := cur }

/-- The header of a GIOP 1.2 request lies in these bytes. -/
structure RequestIn (host : Endian) (header : MsgHeader) (body : List UInt8) (u : MsgUnion)
    (cursor : RecvCursor) : Prop where
  version : header.version = .v1_2
  messageType : header.messageType = .request
  size : body.length = header.messageSize
  decoded : demarshalRequest12 ⟨0, List.replicate 12 0 ++ body, 12, host, header.sender⟩ =
    .ok (u, cursor)

variable {header : MsgHeader} {body : List UInt8} {u : MsgUnion} {cursor : RecvCursor}

theorem completed_request (h : RequestIn env.host header body u cursor) (hdead : c.dead = false)
    (hpos : 0 < header.messageSize) :
    completed env (c.reading header) (.data body) =
      some (requestBuf c.buffers c.allocs header body u cursor.cur) := by
  have hdec : decodeFunc header.messageType header.version = some demarshalRequest12 := by
    rw [h.messageType, h.version]
    rfl
  rw [completed_reading hdead hpos h.size]
  unfold RecvBuffer.demarshal
  simp only [RecvBuffer.ofMessage, hdec, RecvBuffer.cursor, RecvBuffer.data, h.decoded,
    Except.toOption, requestBuf]

theorem messageId_request (h : header.messageType = .request) (n block cur : Nat) :
    messageId env (requestBuf n block header body u cur) =
      some (requestBuf n block header body u cur, u.requestId) := by
  unfold messageId
  simp [requestBuf, RecvBuffer.ofMessage, h, RecvBuffer.requestId]

theorem Conn.not_pending (hfree : ∀ l ∈ c.incomingFrags, l.head.requestId ≠ id)
    (hv : buf.header.version = .v1_2) : ¬ c.Pending buf id := by
  rintro (⟨l, hl, he⟩ | ⟨he, -⟩)
  · exact hfree l hl he
  · rw [hv] at he
    cases he

/-- The first message opens a list of its own. -/
theorem Gathering.start (h : RequestIn env.host header body u cursor) (hidle : c.incomingMsg = none)
    (hsound : c.Sound) (hframed : c.Framed env)
    (hfree : ∀ l ∈ c.incomingFrags, l.head.requestId ≠ u.requestId)
    (hmore : header.moreFragments = true) (hpos : 0 < header.messageSize)
    (hsize : header.messageSize < 2^32)
    (halive : (run (round env) c (readMessage header body)).dead = false) :
    Gathering env u.requestId (requestBuf c.buffers c.allocs header body u cursor.cur) []
      (run (round env) c (readMessage header body)) := by
  rw [run_readMessage hpos h.size] at halive ⊢
  obtain ⟨hreading, hsound', hframed', hdead⟩ := reading_of_alive hidle hsound hframed hpos hsize
    (@run_alive _ _ [.data body] halive)
  rw [hreading] at halive ⊢
  have hcomp := completed_request h hdead hpos
  have hm := @messageId_request env _ body u h.messageType c.buffers
    c.allocs cursor.cur
  have hnot : ¬ (c.reading header).Pending
      (requestBuf c.buffers c.allocs header body u cursor.cur) u.requestId :=
    Conn.not_pending hfree h.version
  have hord : orderly env (c.reading header) (.data body) := by
    unfold orderly
    rw [hcomp]
    exact fun _ => .of_not_pending hm hnot (.inl (by
      simp [requestBuf, RecvBuffer.ofMessage, h.messageType]))
  refine ⟨round_body_idle hdead hpos h.size, round_sound hsound' hframed' hord,
    round_framed hframed', ?_, ?_⟩
  · rcases (round_effect env (c.reading header) (.data body)).kept halive hcomp hmore hm with
      ⟨-, hfrags⟩ | ⟨before, l, after, hj, -⟩
    · refine ⟨⟨requestBuf c.buffers c.allocs header body u cursor.cur, []⟩, ?_, rfl, rfl⟩
      have hhead : (requestBuf c.buffers c.allocs header body u cursor.cur).requestId =
          u.requestId := by
        simp [RecvBuffer.requestId, requestBuf, RecvBuffer.ofMessage, h.messageType]
      unfold Conn.openFor
      rw [hfrags]
      simp [hhead]
    · have hv : (requestBuf c.buffers c.allocs header body u cursor.cur).header.version ≠ .v1_1 := by
        simp [requestBuf, RecvBuffer.ofMessage, h.version]
      have hmem : l ∈ c.incomingFrags := by
        have hl : c.incomingFrags = before ++ l :: after := hj.lists
        simp [hl]
      exact absurd (hj.head_id hv).1 (hfree l hmem)
  · rintro block ⟨⟩
    have hle := (round_frame env (c.reading header) (.data body)).2
    simp only [Conn.reading] at hle ⊢
    omega

theorem getFrag_openFor {before after : List FragList} {l' : FragList} {version : Version}
    (h : c.openFor id = some l) (hv : version ≠ .v1_1)
    (hg : getFrag c id (version = .v1_1) = .ok (some (before, l', after))) : l' = l := by
  obtain ⟨hl, ⟨hid, hbefore⟩ | ⟨hfirst, -⟩⟩ := getFrag_some hg
  · exact openFor_zipper h hl hid hbefore
  · exact absurd (of_decide_eq_true hfirst) hv

/-- What becomes of a list when its last fragment comes and there is memory for it. -/
theorem FragCase.last {error : Bool} {buf₂ : RecvBuffer} {c₂ : Conn}
    (h : FragCase env c buf (error, buf₂, c₂)) (hm : messageId env buf = some (buf', id))
    (hlast : buf.header.moreFragments = false) (hv : buf.header.version ≠ .v1_1)
    (hl : c.openFor id = some l) (hmem : env.realloc c.allocs ≠ .fail) :
    error = false ∧ c₂.dispatched = c.dispatched ∧
    ∃ block, buf₂ = (addLength l.head buf').concat (l.tail ++ [buf']) block ∧
      ((env.realloc c.allocs = .inPlace ∧ l.head.block = some block) ∨
        (block = c.allocs ∧ (l.head.block = none ∨ env.realloc c.allocs = .moved))) := by
  have hh := messageId_header hm
  rw [← hh] at hlast hv
  cases h with
  | badType hm' =>
    rw [hm] at hm'
    cases hm'
  | orphan hm' hg hmore =>
    rw [hm] at hm'
    obtain ⟨rfl, rfl⟩ := Prod.mk.inj (Option.some.inj hm')
    exact absurd (Conn.openFor_pending hl) (getFrag_not_pending rfl hg)
  | opened hm' hg hmore =>
    rw [hm] at hm'
    obtain ⟨rfl, rfl⟩ := Prod.mk.inj (Option.some.inj hm')
    rw [hlast] at hmore
    cases hmore
  | joined hm' hg htype hlimit hmore =>
    rw [hm] at hm'
    obtain ⟨rfl, rfl⟩ := Prod.mk.inj (Option.some.inj hm')
    rw [hlast] at hmore
    cases hmore
  | whole hm' hg htype hlimit hmore hfrag hcat hfree =>
    rw [hm] at hm'
    obtain ⟨rfl, rfl⟩ := Prod.mk.inj (Option.some.inj hm')
    obtain rfl := getFrag_openFor hl hv hg
    obtain ⟨rfl, -, block, rfl, hblock⟩ := concatFrags_some hcat
    obtain ⟨-, -, rfl⟩ := Conn.unuseAll_eq_ok.mp hfree
    exact ⟨rfl, rfl, block, rfl, hblock⟩
  | noMemory hm' hg htype hlimit hmore hfrag hcat hfree =>
    exact absurd (concatFrags_none hcat).2 hmem

/-- The last fragment hands over the request with all that was gathered behind it. -/
theorem Gathering.finish (h : Gathering env id first arrived c) (hid : id < 2^32)
    (hlast : (fragmentHeader flags payload).moreFragments = false)
    (hstop : first.stop = 12 + first.header.messageSize) (hto : first.header.messageType = .request)
    (htotal : first.header.messageSize + arrived.length + payload.length < 2^31)
    (hfour : 4 ≤ first.header.messageSize)
    (halive : (round env c (.data (fragmentHeader flags payload).encode)).dead = false)
    (hmem : env.realloc (c.allocs + 1) ≠ .fail) :
    ∃ block tail, tail.flatMap RecvBuffer.remaining = arrived ++ payload ∧
      (run (round env) c (readMessage (fragmentHeader flags payload)
        (fragmentBody id flags payload))).dispatched = c.dispatched ++
          [(first.longer (arrived ++ payload).length).concat tail block] ∧
      ((env.realloc (c.allocs + 1) = .inPlace ∧ first.block = some block) ∨
        (block = c.allocs + 1 ∧
          (first.block = none ∨ env.realloc (c.allocs + 1) = .moved))) := by
  have hpos : 0 < (fragmentHeader flags payload).messageSize := by simp [fragmentHeader]
  have hsize : (fragmentHeader flags payload).messageSize < 2^31 := by
    simp only [fragmentHeader]
    omega
  have hlen := fragmentBody_length id flags payload
  rw [run_readMessage hpos hlen]
  obtain ⟨hreading, hsound, hframed, hdead⟩ := reading_of_alive h.idle h.sound h.framed hpos
    (by omega) halive
  rw [hreading]
  obtain ⟨l, hl, hhead, htail⟩ := h.gathered
  have hm := @messageId_fragment env id flags payload c.buffers
    c.allocs hid
  have hready := @store_ofMessage (fragmentHeader flags payload) _ c.buffers c hlen
  have hdec : (((c.reading (fragmentHeader flags payload)).takeBuf.2.store
      (fragmentBody id flags payload)).readied).demarshal env.host =
      .ok (fragmentBuf c.buffers c.allocs id flags payload) := by
    rw [Conn.takeBuf_reading, hready]
    rfl
  have hv : (fragmentBuf c.buffers c.allocs id flags payload).header.version ≠ .v1_1 :=
    Version.noConfusion
  have hhead' := @Gathering.addLength_head id _ flags _ _ _ hhead c.buffers c.allocs
    htotal
  have htail' : (l.tail ++ [fragmentPart c.buffers c.allocs id flags payload]).flatMap
      RecvBuffer.remaining = arrived ++ payload := by
    simp [htail, remaining_fragment]
  rcases @round_body env _ _ _ hdead hpos hlen with hcase | ⟨fault, hcase, -⟩
  · generalize round env (c.reading (fragmentHeader flags payload))
      (.data (fragmentBody id flags payload)) = c' at hcase ⊢
    cases hcase with
    | refused hid' hwhy hm' =>
      rcases hwhy with hlt | hfail
      · exact absurd hlt (Nat.lt_irrefl _)
      · rw [hdec] at hfail
        cases hfail
    | plain hle hd hmore htype hdis =>
      rw [hdec] at hd
      obtain rfl := Except.ok.inj hd
      exact absurd rfl htype
    | fragError hle hd hwhy hfrag hm' =>
      rw [hdec] at hd
      obtain rfl := Except.ok.inj hd
      cases (hfrag.last hm hlast hv hl hmem).1
    | held hle hd hmore hfrag =>
      rw [hdec] at hd
      obtain rfl := Except.ok.inj hd
      rw [show (fragmentBuf c.buffers c.allocs id flags payload).header.moreFragments = false
        from hlast] at hmore
      cases hmore
    | reassembled hle hd hmore htype hfrag hdis =>
      rw [hdec] at hd
      obtain rfl := Except.ok.inj hd
      obtain ⟨-, hdisp, block, rfl, hblock⟩ := hfrag.last hm hlast hv hl hmem
      obtain ⟨-, rfl⟩ := dispatch_eq_ok.mp hdis
      refine ⟨block, _, htail', ?_, ?_⟩
      · rw [afterDispatch_dispatched, hdisp, hhead']
        simp [RecvBuffer.concat, RecvBuffer.longer, hto, MsgType.handedOver, Conn.takeBuf_reading]
      · rw [hhead] at hblock
        exact hblock
  · rcases hcase.cause hsound hframed (orderly_fragment hdead hid hl) with
      ⟨-, hi⟩ | ⟨-, bytes, hr, hd⟩ | ⟨-, buf, hb, -, part, id', before, l', after, hm', hg, hlt⟩
    · exact absurd hi (by exact Nat.not_le.mpr hsize)
    · cases hr
      rw [hdec] at hd
      cases hd
    · rw [completed_fragment hdead] at hb
      obtain rfl := Option.some.inj hb
      rw [hm] at hm'
      obtain ⟨rfl, rfl⟩ := Prod.mk.inj (Option.some.inj hm')
      obtain rfl := getFrag_openFor (c := (c.reading (fragmentHeader flags payload)).takeBuf.1)
        hl hv hg
      -- the head counts every byte behind it, so there is room for all of them
      rw [hhead', htail', hhead] at hlt
      simp only [RecvBuffer.longer, hstop] at hlt
      omega

theorem peek_lt {w n : Nat} {cursor' : RecvCursor} (h : Dec.peek w cursor = .ok (n, cursor')) :
    n < 256 ^ w := by
  unfold Dec.peek at h
  by_cases hn : cursor.data.length < cursor.cur + w
  · rw [if_pos hn] at h
    cases h
  · rw [if_neg hn] at h
    simp only [Except.ok.injEq, Prod.mk.injEq] at h
    rw [← h.1]
    by_cases hs : cursor.sender = cursor.host
    · rw [if_pos hs]
      have hlt := cursor.host.join_lt ((cursor.data.drop cursor.cur).take w)
      rwa [List.length_take, List.length_drop, Nat.min_eq_left (by omega)] at hlt
    · rw [if_neg hs]
      exact swapWord_lt w _

theorem need_le {n : Nat} {cursor' : RecvCursor} (h : Dec.need n cursor = .ok ((), cursor')) :
    cursor.cur + n ≤ cursor.data.length := by
  unfold Dec.need at h
  by_cases hn : cursor.data.length < cursor.cur + n
  · rw [if_pos hn] at h
    cases h
  · omega

/-- What the decoded header of a request says about it. -/
theorem RequestIn.bounds {host : Endian} (h : RequestIn host header body u cursor) :
    u.requestId < 2^32 ∧ 8 ≤ header.messageSize ∧ ∃ offset, u.operation = some offset := by
  have hd := h.decoded
  unfold demarshalRequest12 Dec.word at hd
  simp only [Dec.bind_eq_ok, Dec.pure_apply, Except.ok.injEq, Prod.mk.injEq] at hd
  obtain ⟨_, c₁, h₁, _, c₂, h₂, n, c₃, ⟨_, _, h₃, _, _, _, rfl, -⟩, _, _, _, _, _, _, _, _, _, _, _, _,
    _, _, _, _, _, _, rfl, -⟩ := hd
  have hlen := need_le h₂
  simp only [Dec.align, Except.ok.injEq, Prod.mk.injEq] at h₁
  rw [← h₁.2] at hlen
  have hsize := h.size
  refine ⟨by simpa using peek_lt h₃, ?_, _, rfl⟩
  have halign : alignUp (0 + 12) 4 = 12 := by decide
  simp only [halign, List.length_append, List.length_replicate] at hlen
  omega

/-- The header of the same request in one message. -/
def wholeHeader (header : MsgHeader) (n : Nat) : MsgHeader :=
  { header with flags := header.flags &&& 0xfd, messageSize := header.messageSize + n }

theorem wholeHeader_more (header : MsgHeader) (n : Nat) :
    (wholeHeader header n).moreFragments = false := by
  have hflags : header.flags &&& 0xfd &&& 2 = 0 := by
    rw [UInt8.and_assoc]
    exact UInt8.and_zero
  simp [MsgHeader.moreFragments, wholeHeader, hflags]

theorem wholeHeader_sender (header : MsgHeader) (n : Nat) :
    (wholeHeader header n).sender = header.sender := by
  have hflags : header.flags &&& 0xfd &&& 1 = header.flags &&& 1 := by
    rw [UInt8.and_assoc]
    rfl
  simp [MsgHeader.sender, wholeHeader, hflags]

/-- With the rest of the request behind it the header is read the same. -/
theorem RequestIn.whole {host : Endian} (h : RequestIn host header body u cursor)
    (more : List UInt8) :
    RequestIn host (wholeHeader header more.length) (body ++ more) u (cursor.extend more) := by
  refine ⟨h.version, h.messageType, ?_, ?_⟩
  · rw [List.length_append, h.size]
    rfl
  · have hs := stable_request12 _ _ _ more h.decoded
    rw [wholeHeader_sender, ← List.append_assoc]
    exact hs

/-- A request in one message is handed over as it was demarshalled. -/
theorem whole_dispatched (h : RequestIn env.host header body u cursor) (hidle : c.incomingMsg = none)
    (hsound : c.Sound) (hframed : c.Framed env) (hmore : header.moreFragments = false)
    (hpos : 0 < header.messageSize) (hsize : header.messageSize < 2^31)
    (halive : (round env c (.data header.encode)).dead = false) :
    (run (round env) c (readMessage header body)).dispatched =
      c.dispatched ++ [requestBuf c.buffers c.allocs header body u cursor.cur] := by
  rw [run_readMessage hpos h.size]
  obtain ⟨hreading, hsound', hframed', hdead⟩ := reading_of_alive hidle hsound hframed hpos
    (by omega) halive
  rw [hreading]
  have hcomp := completed_request h hdead hpos
  have hfrag : (requestBuf c.buffers c.allocs header body u cursor.cur).fragmented = false := by
    simp [RecvBuffer.fragmented, requestBuf, RecvBuffer.ofMessage, hmore, h.messageType]
  have hord : orderly env (c.reading header) (.data body) := by
    unfold orderly
    rw [hcomp]
    intro hf
    rw [hfrag] at hf
    cases hf
  obtain ⟨bytes, hr, -, -, hdec⟩ := completed_some hcomp
  cases hr
  have hbuf : ∀ buf, ((c.reading header).takeBuf.2.store body).readied.demarshal env.host =
      .ok buf → buf.fragmented = false := by
    intro buf hd
    rw [hdec] at hd
    exact Except.ok.inj hd ▸ hfrag
  rcases @round_body env _ _ _ hdead hpos h.size with hcase | ⟨fault, hcase, -⟩
  · generalize round env (c.reading header) (.data body) = c' at hcase ⊢
    cases hcase with
    | refused hid hwhy hm =>
      rcases hwhy with hlt | hfail
      · exact absurd hlt (Nat.lt_irrefl _)
      · rw [hdec] at hfail
        cases hfail
    | plain hle hd hmore' htype hdis =>
      rw [hdec] at hd
      obtain rfl := Except.ok.inj hd
      obtain ⟨-, rfl⟩ := dispatch_eq_ok.mp hdis
      rw [afterDispatch_dispatched]
      simp [requestBuf, RecvBuffer.ofMessage, h.messageType, MsgType.handedOver,
        Conn.takeBuf_reading]
    | fragError hle hd hwhy hcase hm =>
      have hf := hbuf _ hd
      rcases hwhy with he | he <;> simp [RecvBuffer.fragmented, he] at hf
    | held hle hd hmore' hcase =>
      have hf := hbuf _ hd
      simp [RecvBuffer.fragmented, hmore'] at hf
    | reassembled hle hd hmore' htype hcase hdis =>
      have hf := hbuf _ hd
      simp [RecvBuffer.fragmented, htype] at hf
  · rcases hcase.cause hsound' hframed' hord with
      ⟨-, hi⟩ | ⟨-, bytes, hr, hd⟩ | ⟨-, buf, hb, hf, -⟩
    · exact absurd hi (by exact Nat.not_le.mpr hsize)
    · cases hr
      rw [hdec] at hd
      cases hd
    · rw [hcomp] at hb
      obtain rfl := Option.some.inj hb
      rw [hfrag] at hf
      cases hf

/-- What the handler of a request can see of it. -/
def RecvBuffer.observed (buf : RecvBuffer) :
    Nat × Option (List UInt8) × Option (List UInt8) × Value × List UInt8 :=
  (buf.requestId, buf.objkey, buf.opname, buf.decoded.serviceContext, buf.remaining)

/-- A request put together shows the same as one that came in one piece, if and only if
its pointers still point into its block. -/
theorem observed_concat {tail : List RecvBuffer} {more : List UInt8} {block block' : Nat}
    {header' : MsgHeader} (n n' k cur : Nat) (htail : tail.flatMap RecvBuffer.remaining = more)
    (htype : header.messageType = .request) (htype' : header'.messageType = .request)
    (hop : ∃ offset, u.operation = some offset) :
    (((requestBuf n block header body u cur).longer more.length).concat tail block').observed =
      (requestBuf n' k header' (body ++ more) u cur).observed ↔ block' = block := by
  have hdata : (((requestBuf n block header body u cur).longer more.length).concat tail block').data =
      (requestBuf n' k header' (body ++ more) u cur).data := by
    simp [RecvBuffer.data, RecvBuffer.concat, RecvBuffer.longer, requestBuf, RecvBuffer.ofMessage,
      htail]
  obtain ⟨offset, hop⟩ := hop
  constructor
  · intro h
    by_contra hne
    have hopname : (((requestBuf n block header body u cur).longer more.length).concat tail
        block').opname = none := by
      simp [RecvBuffer.opname, RecvBuffer.deref, RecvBuffer.concat, RecvBuffer.longer, requestBuf,
        RecvBuffer.ofMessage, hop, Ne.symm hne]
    have hopname' : (requestBuf n' k header' (body ++ more) u cur).opname ≠ none := by
      simp [RecvBuffer.opname, RecvBuffer.deref, requestBuf, RecvBuffer.ofMessage, hop]
    have heq := congrArg (·.2.2.1) h
    exact hopname' (heq.symm.trans hopname)
  · rintro rfl
    have hid : (((requestBuf n block' header body u cur).longer more.length).concat tail
        block').requestId = (requestBuf n' k header' (body ++ more) u cur).requestId := by
      simp [RecvBuffer.requestId, RecvBuffer.concat, RecvBuffer.longer, requestBuf,
        RecvBuffer.ofMessage, htype, htype']
    have hderef : ∀ read : List UInt8 → List UInt8,
        (((requestBuf n block' header body u cur).longer more.length).concat tail
          block').deref read = (requestBuf n' k header' (body ++ more) u cur).deref read := by
      intro read
      simp only [RecvBuffer.deref, hdata]
      exact (if_pos rfl).trans (if_pos rfl).symm
    unfold RecvBuffer.observed RecvBuffer.objkey RecvBuffer.opname RecvBuffer.remaining
    rw [hid, hdata]
    simp only [hderef]
    rfl

/-- A GIOP 1.2 request in fragments, between messages of other requests that keep the
lists in order: its last fragment hands over a request, and that request shows the same
as it does when it comes in one message if and only if `g_try_realloc` left the block of
its first message where it was. -/
theorem reassembled_observed (env : Env) (isAuth : Bool) (pre : List ReadResult)
    (header : MsgHeader) (body : List UInt8) (turns : List Turn) (flags : UInt8)
    (payload rest : List UInt8) (u : MsgUnion) (cursor : RecvCursor) (c₀ c₁ c₂ : Conn)
    (hpre : Meets (round env) (orderly env) (.fresh isAuth) pre)
    (h₀ : c₀ = run (round env) (.fresh isAuth) pre) (hidle : c₀.incomingMsg = none)
    (hfree : ∀ l ∈ c₀.incomingFrags, l.head.requestId ≠ u.requestId)
    (hfirst : RequestIn env.host header body u cursor) (hmore : header.moreFragments = true)
    (h₁ : c₁ = run (round env) c₀ (readMessage header body))
    (hturns : Meets (deliver env u.requestId) (Turn.allowed env u.requestId) c₁ turns)
    (h₂ : c₂ = run (deliver env u.requestId) c₁ turns)
    (hlast : (fragmentHeader flags payload).moreFragments = false)
    (hrest : rest = turns.flatMap Turn.payload ++ payload)
    (htotal : header.messageSize + rest.length < 2^31)
    (halive : (round env c₂ (.data (fragmentHeader flags payload).encode)).dead = false)
    (hmem : env.realloc (c₂.allocs + 1) ≠ .fail)
    (hwhole : (round env c₀ (.data (wholeHeader header rest.length).encode)).dead = false) :
    ∃ buf buf', (run (round env) c₂ (readMessage (fragmentHeader flags payload)
        (fragmentBody u.requestId flags payload))).dispatched = c₂.dispatched ++ [buf] ∧
      (run (round env) c₀ (readMessage (wholeHeader header rest.length)
        (body ++ rest))).dispatched = c₀.dispatched ++ [buf'] ∧
      (buf.observed = buf'.observed ↔ env.realloc (c₂.allocs + 1) = .inPlace) := by
  obtain ⟨hid, height, hop⟩ := hfirst.bounds
  have hsound : c₀.Sound ∧ c₀.Framed env := by
    rw [h₀]
    have hall : Always (round env) (fun c => c.Sound ∧ c.Framed env) (.fresh isAuth) pre :=
      hpre.always (fun c r hs hc => ⟨round_sound hs.1 hs.2 hc, round_framed hs.2⟩)
        ⟨Conn.fresh_sound isAuth, Conn.fresh_framed isAuth⟩
    exact hall.last
  have hrestlen : rest.length = (turns.flatMap Turn.payload).length + payload.length := by
    rw [hrest, List.length_append]
  have hlive₂ : c₂.dead = false := @run_alive _ _ [_] halive
  have hlive₁ : c₁.dead = false := by
    cases hd : c₁.dead with
    | false => rfl
    | true =>
      have hfixed : run (deliver env u.requestId) c₁ turns = c₁ :=
        run_fixed (fun t => by unfold deliver; exact run_dead hd _) turns
      rw [h₂, hfixed, hd] at hlive₂
      cases hlive₂
  have hstart := Gathering.start hfirst hidle hsound.1 hsound.2 hfree hmore (by omega) (by omega)
    (h₁ ▸ hlive₁)
  rw [← h₁] at hstart
  have hgathered := hstart.turns hid hturns (by
    simp only [requestBuf, RecvBuffer.ofMessage, List.nil_append]
    omega) (h₂ ▸ hlive₂)
  rw [← h₂, List.nil_append] at hgathered
  obtain ⟨block, tail, htail, hdis, hblock⟩ := hgathered.finish hid hlast rfl
    hfirst.messageType (by
      simp only [requestBuf, RecvBuffer.ofMessage]
      omega) (by
      simp only [requestBuf, RecvBuffer.ofMessage]
      omega) halive hmem
  rw [← hrest] at htail hdis
  have hone := whole_dispatched (hfirst.whole rest) hidle hsound.1 hsound.2
    (wholeHeader_more header rest.length) (by
      simp only [wholeHeader]
      omega) (by
      simp only [wholeHeader]
      omega) hwhole
  refine ⟨_, _, hdis, hone, ?_⟩
  have holder : c₀.allocs < c₂.allocs := hgathered.older c₀.allocs rfl
  rw [show (cursor.extend rest).cur = cursor.cur from rfl, observed_concat _ _ _ _ htail
    hfirst.messageType (hfirst.whole rest).messageType hop]
  rcases hblock with ⟨hplace, he⟩ | ⟨he, hnone | hmoved⟩
  · exact ⟨fun _ => hplace, fun _ => (Option.some.inj he).symm⟩
  · cases hnone
  · rw [hmoved]
    constructor
    · intro h
      omega
    · intro h
      cases h

end

end

/-- A request for the operation `f` of the object `K`, and its first message. -/
def requestBody : List UInt8 :=
  [7, 0, 0, 0, 3, 0, 0, 0, 0, 0, 0, 0, 1, 0, 0, 0, 0x4b, 0, 0, 0, 2, 0, 0, 0, 0x66, 0, 0, 0,
   0, 0, 0, 0, 0, 0, 0, 0]

theorem requestBody_in : ∃ u cursor,
    RequestIn .little ⟨.v1_2, 3, .request, 36⟩ requestBody u cursor ∧ u.requestId = 7 := by
  have hid : (demarshalRequest12 ⟨0, List.replicate 12 0 ++ requestBody, 12, .little,
      .little⟩).toOption.map (·.1.requestId) = some 7 := by decide_cbv
  cases hdec : demarshalRequest12 ⟨0, List.replicate 12 0 ++ requestBody, 12, .little, .little⟩ with
  | error e =>
    rw [hdec] at hid
    cases hid
  | ok p =>
    rw [hdec] at hid
    exact ⟨p.1, p.2, ⟨rfl, rfl, rfl, hdec⟩, Option.some.inj hid⟩

theorem reassembled_observed_two :
    let env : Env := ⟨.little, 1000, fun _ => .inPlace, fun _ => false⟩
    let header : MsgHeader := ⟨.v1_2, 3, .request, 36⟩
    let turns : List Turn := [.other ⟨.v1_2, 3, .locateReply, 8⟩ [9, 0, 0, 0, 0, 0, 0, 0],
      .fragment 3 [1, 2]]
    let c₀ := Conn.fresh false
    let c₂ := run (deliver env 7) (run (round env) c₀ (readMessage header requestBody)) turns
    ∃ buf buf', (run (round env) c₂ (readMessage (fragmentHeader 1 [3])
        (fragmentBody 7 1 [3]))).dispatched = c₂.dispatched ++ [buf] ∧
      (run (round env) c₀ (readMessage (wholeHeader header 3)
        (requestBody ++ [1, 2, 3]))).dispatched = c₀.dispatched ++ [buf'] ∧
      (buf.observed = buf'.observed ↔ env.realloc (c₂.allocs + 1) = .inPlace) := by
  intro env header turns c₀ c₂
  obtain ⟨u, cursor, hfirst, hid⟩ := requestBody_in
  have h := reassembled_observed env false [] header requestBody turns 1 [3] [1, 2, 3] u cursor c₀
    (run (round env) c₀ (readMessage header requestBody)) c₂ trivial rfl rfl
    (by simp [c₀, Conn.fresh]) hfirst (by decide) rfl (by rw [hid]; decide +kernel) (by rw [hid]) (by decide) rfl (by decide)
    (by decide +kernel) (by decide +kernel) (by decide +kernel)
  rwa [hid] at h

/-- When the block moves, the operation name points into the one that was freed. -/
theorem movedBlock_observed :
    let env : Env := ⟨.little, 1000, fun _ => .moved, fun _ => false⟩
    let header : MsgHeader := ⟨.v1_2, 3, .request, 36⟩
    let c := run (round env) (.fresh false) (readMessages [(header, requestBody),
      (fragmentHeader 1 [1, 2, 3], fragmentBody 7 1 [1, 2, 3])])
    let c' := run (round env) (.fresh false) (readMessage (wholeHeader header 3)
      (requestBody ++ [1, 2, 3]))
    c.dispatched.map (·.opname) = [none] ∧ c'.dispatched.map (·.opname) = [some [0x66]] ∧
      c.dispatched.map (·.observed) ≠ c'.dispatched.map (·.observed) := by
  intro env header c c'
  have hop : c.dispatched.map (·.opname) = [none] := by decide +kernel
  have hop' : c'.dispatched.map (·.opname) = [some [0x66]] := by decide +kernel
  refine ⟨hop, hop', fun h => ?_⟩
  have heq := congrArg (List.map (·.2.2.1)) h
  simp only [List.map_map] at heq
  have hboth : c.dispatched.map (·.opname) = c'.dispatched.map (·.opname) := heq
  rw [hop, hop'] at hboth
  cases hboth

end ORBit2
