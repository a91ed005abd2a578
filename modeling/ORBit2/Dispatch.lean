import ORBit2.Effects

/-! What the handlers of requests and replies are given: messages whose announced bytes
are all there and were demarshalled, unless nothing was announced, or the block they
were decoded in has moved. -/

set_option autoImplicit false

namespace ORBit2
open Words Runs

/-- The kinds whose decoded fields point into the body. -/
def MsgType.pointsIntoBody : MsgType → Bool
  | .request | .locateRequest => true
  | _ => false

/-- The announced bytes are there, and what was demarshalled from them. -/
structure RecvBuffer.Decoded (env : Env) (header : MsgHeader) (buf : RecvBuffer) : Prop where
  parsed : parseHeader env.host buf.rawHeader = some header
  messageType : buf.header.messageType = header.messageType
  version : buf.header.version = header.version
  received : header.messageSize ≤ buf.body.length
  state : buf.state = .ready
  decoded : ∃ decode cursor, decodeFunc header.messageType header.version = some decode ∧
    decode ⟨0, List.replicate 12 0 ++ buf.body.take header.messageSize, 12, env.host,
      header.sender⟩ = .ok (buf.decoded, cursor)

/-- What a handler may rely on. -/
structure RecvBuffer.Served (env : Env) (buf : RecvBuffer) : Prop where
  decoded : ∃ header, buf.Decoded env header
  received : buf.header.messageSize ≤ buf.body.length
  own : buf.header.messageType.pointsIntoBody = true → buf.decodedIn = buf.block

/-- The header that a read completes. -/
def announced (env : Env) (c : Conn) : ReadResult → Option MsgHeader
  | .data bytes =>
      if bytes.length = c.takeBuf.2.leftToRead ∧ c.takeBuf.2.state = .readingHeader then
        parseHeader env.host (c.takeBuf.2.store bytes).rawHeader
      else none
  | .wouldBlock => none
  | .fatal => none

/-- A header announces a body, if it is for a handler. -/
def announcesBody (env : Env) (c : Conn) (r : ReadResult) : Prop :=
  match announced env c r with
  | none => True
  | some header => header.messageType.handedOver = true → header.messageSize ≠ 0

/-- The last fragment does not move a block that decoded fields point into. -/
def keepsBlock (env : Env) (c : Conn) (r : ReadResult) : Prop :=
  match completed env c r with
  | none => True
  | some buf =>
      match messageId env buf with
      | none => True
      | some (_, id) =>
          match c.listFor buf id with
          | none => True
          | some l => buf.header.messageType = .fragment → buf.header.moreFragments = false →
              l.head.header.messageType.pointsIntoBody = true → env.realloc c.allocs ≠ .moved

def servable (env : Env) (c : Conn) (r : ReadResult) : Prop :=
  announcesBody env c r ∧ keepsBlock env c r

instance (env : Env) (c : Conn) (r : ReadResult) : Decidable (announcesBody env c r) := by
  unfold announcesBody
  split <;> infer_instance

instance (env : Env) (c : Conn) (r : ReadResult) : Decidable (keepsBlock env c r) := by
  unfold keepsBlock
  induction completed env c r using Option.casesOn with
  | none => infer_instance
  | some buf =>
    dsimp only
    induction messageId env buf using Option.casesOn with
    | none => infer_instance
    | some found =>
      dsimp only
      induction c.listFor buf found.2 using Option.casesOn <;> infer_instance

instance (env : Env) (c : Conn) (r : ReadResult) : Decidable (servable env c r) :=
  inferInstanceAs (Decidable (_ ∧ _))

/-- A list whose head was decoded, in front of whole fragments. -/
structure FragList.Decoded (env : Env) (l : FragList) : Prop where
  head : l.head.header.messageType ≠ .fragment →
    (∃ header, l.head.Decoded env header) ∧ l.head.decodedIn = l.head.block ∧ l.head.block ≠ none
  full : ∀ buf ∈ l.tail, buf.data.length = buf.stop
  total : (∀ buf ∈ l.tail, buf.cur ≤ buf.stop) → l.head.header.messageSize ≤ l.held.length

section
variable {env : Env} {c : Conn} {buf buf' : RecvBuffer} {header : MsgHeader} {id : Nat}
  {r : ReadResult} {l : FragList}

theorem decodeFunc_handedOver (version : Version) {t : MsgType} (h : t.handedOver = true) :
    ∃ decode, decodeFunc t version = some decode := by
  cases t <;> cases version <;> first | exact ⟨_, rfl⟩ | cases h

/-- Bytes behind the announced ones change nothing. -/
theorem RecvBuffer.Decoded.extend (h : buf.Decoded env header)
    (hraw : buf'.rawHeader = buf.rawHeader)
    (htype : buf'.header.messageType = buf.header.messageType)
    (hversion : buf'.header.version = buf.header.version) (hstate : buf'.state = buf.state)
    (hdecoded : buf'.decoded = buf.decoded) {more : List UInt8} (hbody : buf'.body = buf.body ++ more) :
    buf'.Decoded env header := by
  refine ⟨hraw ▸ h.parsed, htype ▸ h.messageType, hversion ▸ h.version, ?_, hstate ▸ h.state, ?_⟩
  · have hr := h.received
    rw [hbody, List.length_append]
    omega
  · rw [hdecoded, hbody, List.take_append_of_le_length h.received]
    exact h.decoded

/-- A message for a handler that a read completes is decoded. -/
theorem completed_decoded (hframed : c.Framed env) (hb : completed env c r = some buf)
    (hto : buf.header.messageType.handedOver = true) :
    buf.Decoded env buf.header ∧ buf.decodedIn = buf.block ∧ buf.block ≠ none := by
  have ha := completed_arrived hframed hb
  obtain ⟨bytes, -, hlen, hs, hd⟩ := completed_some hb
  have hframe := hd
  obtain ⟨u, block, cur, rfl⟩ := RecvBuffer.demarshal_frame hframe
  obtain ⟨decode, hdec⟩ := decodeFunc_handedOver (c.takeBuf.2.store bytes).header.version hto
  unfold RecvBuffer.demarshal at hd
  rw [show decodeFunc (c.takeBuf.2.store bytes).readied.header.messageType
    (c.takeBuf.2.store bytes).readied.header.version = some decode from hdec] at hd
  cases hrun : decode ((c.takeBuf.2.store bytes).readied.cursor env.host) with
  | error e => simp [hrun] at hd
  | ok p =>
    obtain ⟨u', cursor⟩ := p
    simp only [hrun, Except.ok.injEq] at hd
    have hu : u' = u := congrArg RecvBuffer.decoded hd
    have hblock : (c.takeBuf.2.store bytes).readied.block = block :=
      congrArg RecvBuffer.decodedIn hd
    have hbody := ha.body_length
    refine ⟨⟨ha.parsed, rfl, rfl, hbody.ge, rfl, decode, cursor, hdec, ?_⟩, hblock.symm, ha.block⟩
    rw [← hu, ← hrun, ← hbody, List.take_length]
    rfl

theorem keepsBlock_apply {before after : List FragList} (h : keepsBlock env c r)
    (hb : completed env c r = some buf) (hm : messageId env buf = some (buf', id))
    (hj : c.Joins buf id before l after) (ht : buf.header.messageType = .fragment)
    (hmore : buf.header.moreFragments = false)
    (hp : l.head.header.messageType.pointsIntoBody = true) : env.realloc c.allocs ≠ .moved := by
  unfold keepsBlock at h
  simp only [hb, hm, hj.listFor] at h
  exact h ht hmore hp

theorem messageId_handedOver (hm : messageId env buf = some (buf', id))
    (ht : buf.header.messageType ≠ .fragment) : buf.header.messageType.handedOver = true := by
  unfold messageId at hm
  cases h : buf.header.messageType <;> simp_all [MsgType.handedOver]

/-- A buffer that joins keeps the list decoded. -/
theorem FragList.Decoded.join (h : l.Decoded env) (hfull : buf.data.length = buf.stop) :
    (FragList.mk (addLength l.head buf) (l.tail ++ [buf])).Decoded env := by
  refine ⟨fun ht => ?_, ?_, fun hle => ?_⟩
  · obtain ⟨⟨header, hd⟩, hown⟩ := h.head ht
    refine ⟨⟨header, hd.extend rfl rfl rfl rfl rfl (?_ : _ = _ ++ [])⟩, hown⟩
    simp [addLength]
  · rw [List.forall_mem_append, List.forall_mem_singleton]
    exact ⟨h.full, hfull⟩
  · rw [List.forall_mem_append, List.forall_mem_singleton] at hle
    have htotal := h.total hle.1
    have hrem : buf.remaining.length = buf.stop - buf.cur := by
      rw [RecvBuffer.remaining, List.length_drop, hfull]
    rw [FragList.held_join, List.length_append, hrem]
    simp only [addLength]
    omega

/-- A read that meets the condition hands out only what may be relied on. -/
theorem round_served (hframed : c.Framed env) (hlists : ∀ l ∈ c.incomingFrags, l.Decoded env)
    (hserved : ∀ buf ∈ c.dispatched, buf.Served env) (hc : servable env c r) :
    (∀ l ∈ (round env c r).incomingFrags, l.Decoded env) ∧
      ∀ buf ∈ (round env c r).dispatched, buf.Served env := by
  have heff := round_effect env c r
  generalize round env c r = c' at heff ⊢
  cases heff with
  | quiet hfrags hdis hwhy => exact ⟨hfrags ▸ hlists, hdis ▸ hserved⟩
  | @empty bytes header block hr hlen hs hp h0 hto hfrags hdis =>
    have hannounced := hc.1
    subst hr
    simp only [announcesBody, announced, hlen, hs, and_self, if_true, hp] at hannounced
    exact absurd h0 (hannounced hto)
  | @plain buf hb hf hto hfrags hdis =>
    refine ⟨hfrags ▸ hlists, ?_⟩
    rw [hdis, List.forall_mem_append, List.forall_mem_singleton]
    obtain ⟨hd, hown, -⟩ := completed_decoded hframed hb hto
    exact ⟨hserved, ⟨_, hd⟩, hd.received, fun _ => hown⟩
  | @opened buf buf' id hb hm hnot hmore hfrags hdis =>
    refine ⟨?_, hdis ▸ hserved⟩
    rw [hfrags, List.forall_mem_cons]
    refine ⟨⟨fun ht => ?_, by simp, fun _ => ?_⟩, hlists⟩
    · rw [messageId_header hm] at ht
      obtain ⟨hd, hown⟩ := completed_decoded hframed hb (messageId_handedOver hm ht)
      rcases messageId_some hm with ⟨-, rfl, -⟩ | ⟨hf, -⟩ | ⟨hf, -⟩
      · exact ⟨⟨_, hd⟩, hown⟩
      · exact absurd hf ht
      · exact absurd hf ht
    · have hbody := (completed_arrived hframed hb).body_length
      simp [FragList.held, messageId_header hm, messageId_body hm, hbody]
  | @joined buf buf' id before after l hb hm hj hmore hfrags hdis =>
    have hall := hlists
    rw [hj.lists, List.forall_mem_append, List.forall_mem_cons] at hall
    refine ⟨?_, hdis ▸ hserved⟩
    rw [hfrags, List.forall_mem_append, List.forall_mem_cons]
    exact ⟨hall.1, hall.2.1.join (messageId_full hm (completed_arrived hframed hb).full), hall.2.2⟩
  | @whole buf buf' id before after l block hb hm hj hmore hlast hle hblock hto hfrags hdis =>
    have hall := hlists
    rw [hj.lists, List.forall_mem_append, List.forall_mem_cons] at hall
    refine ⟨?_, ?_⟩
    · rw [hfrags, List.forall_mem_append]
      exact ⟨hall.1, hall.2.2⟩
    rw [hdis, List.forall_mem_append, List.forall_mem_singleton]
    refine ⟨hserved, ?_⟩
    have hjoin := hall.2.1.join (messageId_full hm (completed_arrived hframed hb).full)
    obtain ⟨⟨header, hd⟩, hown, hne⟩ := hjoin.head hj.head
    refine ⟨⟨header, hd.extend rfl rfl rfl rfl rfl rfl⟩, hjoin.total hle, fun hp => ?_⟩
    have hkeep := keepsBlock_apply hc.2 hb hm hj hlast hmore hp
    rcases hblock with ⟨-, he⟩ | ⟨-, he | he⟩
    · exact hown.trans he
    · exact absurd he hne
    · exact absurd he hkeep
  | dropped hb hm hj hmore hlast hfrags hdis hwhy =>
    have hall := hlists
    rw [hj.lists, List.forall_mem_append, List.forall_mem_cons] at hall
    refine ⟨?_, hdis ▸ hserved⟩
    rw [hfrags, List.forall_mem_append]
    exact ⟨hall.1, hall.2.2⟩

/-- In every run whose headers announce a body for every handler and in which no decoded
request is moved, whatever is handed out is complete, demarshalled and its own. -/
theorem dispatched_served (env : Env) (isAuth : Bool) (rs : List ReadResult)
    (h : Meets (round env) (servable env) (.fresh isAuth) rs) :
    Always (round env) (fun c => ∀ buf ∈ c.dispatched, buf.Served env) (.fresh isAuth) rs := by
  have hall : Always (round env) (fun c => c.Framed env ∧ (∀ l ∈ c.incomingFrags, l.Decoded env) ∧
      ∀ buf ∈ c.dispatched, buf.Served env) (.fresh isAuth) rs := by
    refine h.always (fun c r hs hc => ?_) ⟨Conn.fresh_framed isAuth, by simp [Conn.fresh],
      by simp [Conn.fresh]⟩
    obtain ⟨hframed, hlists, hserved⟩ := hs
    exact ⟨round_framed hframed, round_served hframed hlists hserved hc⟩
  exact hall.imp fun c hc => hc.2.2

theorem dispatched_served_one :
    let env : Env := ⟨.little, 300, fun _ => .moved, fun _ => false⟩
    let rs := readMessages [(⟨.v1_2, 1, .locateReply, 8⟩, [7, 0, 0, 0, 0, 0, 0, 0])]
    Always (round env) (fun c => ∀ buf ∈ c.dispatched, buf.Served env) (.fresh false) rs :=
  dispatched_served _ false _ (by decide)

/-- Twelve bytes that announce an empty request reach `ORBit_handle_request` as they are. -/
theorem emptyRequest_notServed :
    let env : Env := ⟨.little, 300, fun _ => .moved, fun _ => false⟩
    let rs : List ReadResult := [.data (⟨.v1_2, 1, .request, 0⟩ : MsgHeader).encode]
    let c := run (round env) (.fresh false) rs
    c.dispatched.map (·.state) = [.readingBody] ∧
      ¬ Always (round env) (fun c => ∀ buf ∈ c.dispatched, buf.Served env) (.fresh false) rs := by
  intro env rs c
  have hstate : c.dispatched.map (·.state) = [.readingBody] := by decide
  refine ⟨hstate, fun h => ?_⟩
  have hmem : .readingBody ∈ c.dispatched.map (·.state) := by simp [hstate]
  obtain ⟨buf, hb, he⟩ := List.mem_map.mp hmem
  obtain ⟨⟨header, hd⟩, -, -⟩ := h.last buf hb
  have hs := hd.state
  rw [he] at hs
  cases hs

end

end ORBit2
