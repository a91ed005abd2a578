import ORBit2.Effects

/-! A client connection over several transports: it is closed, times out and is
connected again, and what it had received before stays in it. -/

set_option autoImplicit false

namespace ORBit2
open Words Runs

/-- What `link_connection_do_initiate` achieves. -/
inductive Initiate where
  | refused | inProgress | connected
  deriving DecidableEq, Repr

inductive NetEvent where
  | read (r : ReadResult)
  /-- `giop_timeout` -/
  | timeout
  /-- `link_connection_state_changed (cnx, LINK_DISCONNECTED)`, from outside the reading -/
  | closed
  /-- `giop_connection_try_reconnect` -/
  | tryReconnect (result : Initiate)
  /-- `link_connection_io_handler` learns how a connect that was in progress ended -/
  | established (ok : Bool)
  deriving DecidableEq, Repr

/-- `disconnect`, with the fault it may run into. -/
def Conn.close (c : Conn) : Conn := (c.record (c.disconnect.map fun c => (c, false))).1

/-- One event. `link_connection_from_fd_T` sets `is_auth` from the same protocol again. -/
def netStep (env : Env) (c : Conn) : NetEvent → Conn
  | .read r => round env c r
  | .timeout =>
      if c.fault.isSome ∨ c.status = .disconnected then c else { c with status := .timeout }
  | .closed => if c.fault.isSome then c else c.close
  | .tryReconnect result =>
      if c.fault.isSome then c
      else
        match c.status, result with
        | .disconnected, .inProgress | .timeout, .inProgress => { c with status := .connecting }
        | .disconnected, .connected | .timeout, .connected => { c with status := .connected }
        | _, _ => c
  | .established ok =>
      if c.fault.isSome ∨ c.status ≠ .connecting then c
      else if ok then { c with status := .connected }
      else c.close

/-- A connection as `giop_connection_initiate` makes it. -/
def Conn.initiated (isAuth : Bool) (status : LinkStatus) : Conn :=
  { Conn.fresh isAuth with status := status }

/-- The connection with everything forgotten that it has received so far: no fragment
list is open, and of a message that is being read not a byte has come in. -/
def Conn.renew (c : Conn) : Conn :=
  { c with
    incomingMsg := c.incomingMsg.map fun buf => .useBuf buf.id
    incomingFrags := [] }

/-- The list that a message completed by this read joins. -/
def joinedList (env : Env) (c : Conn) (r : ReadResult) : Option FragList := do
  let buf ← completed env c r
  let (_, id) ← messageId env buf
  if buf.fragmented then c.listFor buf id else none

/-- A read does not go on with what `left` holds: no byte is added to a message begun
there, and no message joins a list opened there. -/
def StartsAnew (env : Env) (left c : Conn) : NetEvent → Prop
  | .read (.data bytes) => c.dead = false → bytes ≠ [] →
      (∀ buf ∈ left.incomingMsg, buf.rawHeader ≠ [] → c.incomingMsg.map (·.id) ≠ some buf.id) ∧
      ∀ l ∈ joinedList env c (.data bytes), ∀ old ∈ left.incomingFrags, old.head.id ≠ l.head.id
  | _ => True

instance (env : Env) (left c : Conn) (e : NetEvent) : Decidable (StartsAnew env left c e) := by
  unfold StartsAnew
  split <;> infer_instance

/-- The connection with further lists behind its own. -/
def Conn.behind (old : List FragList) (c : Conn) : Conn :=
  { c with incomingFrags := c.incomingFrags ++ old }

section
variable {env : Env} {c d : Conn} {buf buf₁ : RecvBuffer} {old : List FragList}

@[simp] theorem Conn.dead_behind : (d.behind old).dead = d.dead := rfl

theorem Conn.takeBuf_behind :
    (d.behind old).takeBuf = (d.takeBuf.1.behind old, d.takeBuf.2) := by
  unfold Conn.takeBuf
  cases hm : d.incomingMsg <;> simp [Conn.behind, hm]

theorem Conn.unuse_behind (buf : RecvBuffer) :
    (d.behind old).unuse buf = (d.unuse buf).map (Conn.behind old) := by
  unfold Conn.unuse
  by_cases hg : buf.id ∈ d.gone
  · simp [Conn.behind, hg, Except.map]
  · simp [Conn.behind, hg, Except.map]

theorem Conn.unuseAll_behind (bufs : List RecvBuffer) :
    (d.behind old).unuseAll bufs = (d.unuseAll bufs).map (Conn.behind old) := by
  induction bufs generalizing d with
  | nil => rfl
  | cons buf bufs ih =>
    rw [Conn.unuseAll, Conn.unuseAll, Conn.unuse_behind]
    cases d.unuse buf with
    | error fault => rfl
    | ok d' => exact ih

theorem Conn.msgError_behind (buf : RecvBuffer) :
    (d.behind old).msgError buf = (d.msgError buf).map (Conn.behind old) := by
  rw [Conn.msgError_eq, Conn.msgError_eq]
  by_cases hg : buf.id ∈ d.gone
  · simp [Conn.behind, hg, Except.map]
  · simp [Conn.behind, hg, Except.map]

theorem dispatch_behind (buf : RecvBuffer) :
    dispatch env (d.behind old) buf = (dispatch env d buf).map (Conn.behind old) := by
  rw [dispatch_eq, dispatch_eq]
  by_cases hg : buf.id ∈ d.gone
  · simp [Conn.behind, hg, Except.map]
  · rw [if_neg hg, if_neg (show buf.id ∉ (d.behind old).gone from hg)]
    rfl

theorem allocBuffer_behind (buf : RecvBuffer) (alloc : Option Nat) (size : Nat) :
    allocBuffer env (d.behind old) buf alloc size =
      ((allocBuffer env d buf alloc size).1.behind old, (allocBuffer env d buf alloc size).2) := by
  unfold allocBuffer
  cases hr : env.realloc d.allocs <;> cases alloc <;> simp [Conn.behind, hr]

theorem recvMsgReadingBody_behind (buf : RecvBuffer) :
    recvMsgReadingBody env (d.behind old) buf =
      ((recvMsgReadingBody env d buf).1.behind old, (recvMsgReadingBody env d buf).2) := by
  unfold recvMsgReadingBody
  cases parseHeader env.host buf.rawHeader with
  | none => rfl
  | some header =>
    by_cases hl : d.isAuth = false ∧ env.limit < header.messageSize
    · simp [Conn.behind, hl]
    · have hl' : ¬ ((d.behind old).isAuth = false ∧ env.limit < header.messageSize) := hl
      simp only [hl, hl', if_false]
      exact allocBuffer_behind ..

theorem finishHeader_behind (buf : RecvBuffer) :
    finishHeader env (d.behind old) buf =
      (finishHeader env d buf).map fun p => (p.1.behind old, p.2) := by
  unfold finishHeader
  rw [recvMsgReadingBody_behind]
  obtain ⟨d₁, buf₁, hr⟩ : ∃ d₁ buf₁, recvMsgReadingBody env d buf = (d₁, buf₁) := ⟨_, _, rfl⟩
  rw [hr]
  cases buf₁ with
  | none =>
    simp only [Conn.msgError_behind]
    cases d₁.msgError buf <;> rfl
  | some buf₁ =>
    simp only
    by_cases hp : 0 < buf₁.leftToRead
    · simp [hp, Except.map, Conn.behind]
    · simp only [hp, if_false, dispatch_behind]
      cases dispatch env d₁ { buf₁ with state := .readingBody } <;> rfl

theorem copyFrags_behind (bufs : List RecvBuffer) :
    copyFrags (d.behind old) bufs = copyFrags d bufs := by
  induction bufs with
  | nil => rfl
  | cons buf bufs ih =>
    rw [copyFrags, copyFrags, ih]
    rfl

theorem concatFrags_behind (head : RecvBuffer) (tail : List RecvBuffer) :
    concatFrags env (d.behind old) head tail =
      (concatFrags env d head tail).map fun p => (p.1.behind old, p.2) := by
  unfold concatFrags
  by_cases hf : head.freeBody = false
  · simp [hf, Except.map]
  simp only [hf, allocBuffer_behind]
  obtain ⟨d₁, new, ha⟩ : ∃ d₁ new, allocBuffer env d head head.block
      (head.header.messageSize + (head.cur - 12)) = (d₁, new) := ⟨_, _, rfl⟩
  rw [ha]
  cases new with
  | none => rfl
  | some new =>
    simp only [copyFrags_behind]
    cases copyFrags d₁ tail with
    | error fault => rfl
    | ok copied =>
      simp only [bind, Except.bind, pure, Except.pure]
      by_cases hfull : 12 + (head.header.messageSize + (head.cur - 12)) < head.stop + copied.length
      · simp only [hfull, if_true]
        rfl
      · simp only [hfull, if_false]
        rfl

/-- A zipper over the own lists, seen with the further ones behind them. -/
def Zipper.behind (old : List FragList) (z : Zipper) : Zipper := (z.1, z.2.1, z.2.2 ++ old)

/-- A search that finds nothing in the lists behind finds what it finds without them. -/
theorem findFrag_behind {id : Nat} (lists : List FragList)
    (hold : findFrag d id old = .ok none ∨ ∃ l ∈ lists, l.head.requestId = id) :
    findFrag (d.behind old) id (lists ++ old) =
      (findFrag d id lists).map (Option.map (Zipper.behind old)) := by
  have hsame : ∀ ls, findFrag (d.behind old) id ls = findFrag d id ls := by
    intro ls
    induction ls with
    | nil => rfl
    | cons l ls ih =>
      rw [findFrag, findFrag, ih]
      rfl
  rw [hsame]
  induction lists with
  | nil =>
    rcases hold with hold | ⟨l, hl, -⟩
    · simp [hold, findFrag, Except.map]
    · cases hl
  | cons l lists ih =>
    rw [List.cons_append, findFrag, findFrag]
    cases ha : d.access l.head with
    | error fault => rfl
    | ok u =>
      by_cases hid : l.head.requestId = id
      · simp [hid, bind, Except.bind, pure, Except.pure, Except.map, Zipper.behind]
      · have hrest : findFrag d id old = .ok none ∨ ∃ l ∈ lists, l.head.requestId = id := by
          rcases hold with hold | ⟨x, hx, he⟩
          · exact .inl hold
          · rcases List.mem_cons.mp hx with rfl | hx
            · exact absurd he hid
            · exact .inr ⟨x, hx, he⟩
        simp only [hid, if_false, bind, Except.bind, ih hrest]
        cases findFrag d id lists with
        | error fault => rfl
        | ok found =>
          cases found with
          | none => rfl
          | some z => rfl

/-- `giop_connection_get_frag` does not see the lists behind. -/
theorem getFrag_behind {id : Nat} {first : Bool}
    (hold : findFrag d id old = .ok none ∨ ∃ l ∈ d.incomingFrags, l.head.requestId = id)
    (hfirst : first = true → d.incomingFrags = [] → old = []) :
    getFrag (d.behind old) id first = (getFrag d id first).map (Option.map (Zipper.behind old)) := by
  unfold getFrag
  rw [show (d.behind old).incomingFrags = d.incomingFrags ++ old from rfl, findFrag_behind _ hold]
  cases hf : findFrag d id d.incomingFrags with
  | error fault => rfl
  | ok found =>
    cases found with
    | some z => rfl
    | none =>
      cases first with
      | false => rfl
      | true =>
        cases hl : d.incomingFrags with
        | nil =>
          rw [hfirst rfl hl]
          rfl
        | cons l rest => rfl

/-- A message that finds no list behind: it joins one of the connection's own, or none. -/
def Conn.Skips (env : Env) (old : List FragList) (d : Conn) (buf : RecvBuffer) : Prop :=
  ∀ buf' id, messageId env buf = some (buf', id) →
    getFrag (d.behind old) id (buf'.header.version = .v1_1) =
      (getFrag d id (buf'.header.version = .v1_1)).map (Option.map (Zipper.behind old))

theorem handleFragmented_behind (h : d.Skips env old buf) :
    handleFragmented env (d.behind old) buf =
      (handleFragmented env d buf).map fun p => (p.1, p.2.1, p.2.2.behind old) := by
  unfold handleFragmented
  cases hm : messageId env buf with
  | none => rfl
  | some p =>
    obtain ⟨buf', id⟩ := p
    simp only [h buf' id hm]
    cases getFrag d id (buf'.header.version = .v1_1) with
    | error fault => rfl
    | ok found =>
      cases found with
      | none =>
        cases hmore : buf'.header.moreFragments <;>
          simp [Except.map, bind, Except.bind, pure, Except.pure, Conn.behind]
      | some z =>
        obtain ⟨before, l, after⟩ := z
        have haccess : (d.behind old).access l.head = d.access l.head := rfl
        have hauth : (d.behind old).isAuth = d.isAuth := rfl
        simp only [Except.map, Option.map, Zipper.behind, bind, Except.bind, haccess, hauth]
        cases d.access l.head with
        | error fault => rfl
        | ok u =>
          simp only
          by_cases htype : l.head.header.messageType = .fragment
          · simp [htype]
          by_cases hlimit : d.isAuth = false ∧ env.limit < buf'.header.messageSize
          · simp [htype, hlimit]
          simp only [htype, hlimit, if_false]
          cases hmore : buf'.header.moreFragments with
          | true => simp [pure, Except.pure, Conn.behind]
          | false =>
            by_cases hfrag : buf'.header.messageType ≠ .fragment
            · simp [hfrag]
            simp only [Bool.false_eq_true, if_false, hfrag, concatFrags_behind]
            cases concatFrags env d (addLength l.head buf') (l.tail ++ [buf']) with
            | error fault => rfl
            | ok p =>
              obtain ⟨d₁, whole⟩ := p
              simp only [Except.map, Conn.unuseAll_behind]
              cases d₁.unuseAll (l.tail ++ [buf']) with
              | error fault => rfl
              | ok d₂ =>
                cases whole <;> simp [pure, Except.pure, Conn.behind]

theorem finishBody_behind (h : ∀ buf₁, buf.readied.demarshal env.host = .ok buf₁ →
      buf₁.fragmented = true → d.Skips env old buf₁) :
    finishBody env (d.behind old) buf = (finishBody env d buf).map (Conn.behind old) := by
  unfold finishBody
  by_cases hstop : buf.stop < 12 + buf.header.messageSize
  · simp only [hstop, if_true]
    exact Conn.msgError_behind _
  simp only [hstop, if_false]
  have hr : ({ buf with cur := 12, state := .ready } : RecvBuffer) = buf.readied := rfl
  rw [hr]
  cases hd : buf.readied.demarshal env.host with
  | error e =>
    cases e with
    | undefined => rfl
    | fail => exact Conn.msgError_behind _
  | ok buf₁ =>
    simp only
    cases hmore : buf₁.header.moreFragments with
    | true =>
      have hskip := h buf₁ hd (by simp [RecvBuffer.fragmented, hmore])
      simp only [if_true, handleFragmented_behind hskip]
      cases handleFragmented env d buf₁ with
      | error fault => rfl
      | ok p =>
        obtain ⟨error, buf₂, d₁⟩ := p
        cases error with
        | true => exact Conn.msgError_behind _
        | false => rfl
    | false =>
      by_cases htype : buf₁.header.messageType = .fragment
      · have hskip := h buf₁ hd (by simp [RecvBuffer.fragmented, htype])
        simp only [Bool.false_eq_true, if_false, htype, if_true, handleFragmented_behind hskip]
        cases handleFragmented env d buf₁ with
        | error fault => rfl
        | ok p =>
          obtain ⟨error, buf₂, d₁⟩ := p
          cases error with
          | true => exact Conn.msgError_behind _
          | false => exact dispatch_behind _
      · simp only [Bool.false_eq_true, if_false, htype]
        exact dispatch_behind _

theorem handleRead_behind {r : ReadResult} (h : ∀ bytes buf₁, r = .data bytes →
      (buf.store bytes).leftToRead = 0 → buf.state = .readingBody →
      (buf.store bytes).readied.demarshal env.host = .ok buf₁ → buf₁.fragmented = true →
      d.Skips env old buf₁) :
    handleRead env (d.behind old) buf r =
      (handleRead env d buf r).map fun p => (p.1.behind old, p.2) := by
  cases r with
  | wouldBlock => rfl
  | fatal =>
    simp only [handleRead, Conn.msgError_behind]
    cases d.msgError buf <;> rfl
  | data bytes =>
    unfold handleRead
    by_cases hl : (buf.store bytes).leftToRead = 0
    · simp only [hl, if_true]
      cases hs : (buf.store bytes).state with
      | readingHeader => exact finishHeader_behind _
      | readingBody =>
        have hs' : buf.state = .readingBody := by rw [← hs, RecvBuffer.store_state]
        simp only [finishBody_behind fun buf₁ hd hf => h bytes buf₁ rfl hl hs' hd hf]
        cases finishBody env d (buf.store bytes) <;> rfl
      | awaitingFragments => rfl
      | ready => rfl
    · simp only [hl, if_false]
      rfl

theorem Conn.record_behind (r : Except Fault (Conn × Bool)) :
    ((d.behind old).record (r.map fun p => (p.1.behind old, p.2))).1 =
      (d.record r).1.behind old := by
  cases r <;> rfl

/-- A read on a connection with further lists behind its own. -/
theorem round_behind {r : ReadResult} (h : ∀ buf₁, completed env d r = some buf₁ →
      buf₁.fragmented = true → d.takeBuf.1.Skips env old buf₁) :
    round env (d.behind old) r = (round env d r).behind old := by
  unfold round
  rw [Conn.dead_behind, Conn.takeBuf_behind]
  by_cases hd : d.dead = true
  · simp only [hd, if_true]
  simp only [hd]
  cases r with
  | wouldBlock => rfl
  | fatal =>
    simp only [roundOn]
    rw [handleRead_behind (by rintro _ _ ⟨⟩)]
    exact Conn.record_behind _
  | data bytes =>
    simp only [roundOn]
    by_cases hb : bytes = [] ∨ d.takeBuf.2.leftToRead < bytes.length
    · simp only [hb, if_true]
      rfl
    by_cases hi : 2^31 ≤ d.takeBuf.2.leftToRead
    · simp only [hb, if_false, if_pos hi]
      rfl
    simp only [hb, if_false, if_neg hi]
    rw [handleRead_behind ?skips]
    · exact Conn.record_behind _
    case skips =>
      rintro _ buf₁ ⟨⟩ hl hs hdem hf
      rw [RecvBuffer.store_leftToRead] at hl
      have hlen : bytes.length = d.takeBuf.2.leftToRead := by
        by_contra hne
        exact hb (.inr (by omega))
      exact h buf₁ (completed_eq (by simpa using hd) (fun he => hb (.inl he)) hlen hs hdem) hf

/-- The own lists are searched first, so what joins none of those behind skips them. -/
theorem skips_of_listFor {id : Nat} {buf' : RecvBuffer}
    (hm : messageId env buf₁ = some (buf', id))
    (halive : ∀ l ∈ old, l.head.id ∉ d.gone)
    (h : ∀ l, (d.behind old).listFor buf₁ id = some l → l ∉ old) : d.Skips env old buf₁ := by
  intro buf'' id' hm'
  rw [hm] at hm'
  obtain ⟨rfl, rfl⟩ := Prod.mk.inj (Option.some.inj hm')
  unfold Conn.listFor at h
  rw [show (d.behind old).incomingFrags = d.incomingFrags ++ old from rfl] at h
  by_cases hown : ∃ l ∈ d.incomingFrags, l.head.requestId = id
  · refine getFrag_behind (.inr hown) fun _ hnil => ?_
    obtain ⟨l, hl, -⟩ := hown
    rw [hnil] at hl
    cases hl
  have hnone : d.incomingFrags.find? (·.head.requestId = id) = none := by
    rw [List.find?_eq_none]
    intro l hl
    simpa using fun he => hown ⟨l, hl, he⟩
  rw [List.find?_append, hnone, Option.none_or] at h
  have hold : old.find? (·.head.requestId = id) = none := by
    cases hf : old.find? (·.head.requestId = id) with
    | none => rfl
    | some l => exact absurd (List.mem_of_find?_eq_some hf) (h l (by rw [hf]))
  have hfind : findFrag d id old = .ok none := by
    obtain ⟨found, hf⟩ := @findFrag_ok d id old halive
    cases found with
    | none => exact hf
    | some z =>
      obtain ⟨hl, he, -⟩ := findFrag_some hf
      have hno := List.find?_eq_none.mp hold z.2.1 (by rw [hl]; simp)
      simp [he] at hno
  refine getFrag_behind (.inl hfind) fun hv hnil => ?_
  have hversion : buf₁.header.version = .v1_1 := by
    rw [← messageId_header hm]
    simpa using hv
  cases hl : old with
  | nil => rfl
  | cons l rest =>
    rw [hold] at h
    exact absurd (by rw [hl]; simp) (h l (by simp [hversion, hnil, hl]))

theorem Conn.close_idle (hm : c.incomingMsg = none) :
    c.close = { c with status := .disconnected } := by
  unfold Conn.close
  rw [Conn.disconnect_idle hm]
  rfl

theorem Conn.close_held (hm : c.incomingMsg = some buf) (hg : buf.id ∉ c.gone) : c.close =
    { c with status := .disconnected, incomingMsg := none, gone := buf.id :: c.gone } := by
  unfold Conn.close Conn.disconnect Conn.unuse
  simp [hm, hg, bind, Except.bind, Except.map, Conn.record, pure, Except.pure]

theorem Conn.close_gone (hm : c.incomingMsg = some buf) (hg : buf.id ∈ c.gone) :
    c.close = { c with fault := some .doubleFree } := by
  unfold Conn.close Conn.disconnect Conn.unuse
  simp [hm, hg, bind, Except.bind, Except.map, Conn.record]

/-- A message of which nothing has been read is as `giop_recv_buffer_use_buf` made it. -/
def Conn.Unread (c : Conn) : Prop :=
  ∀ buf, c.incomingMsg = some buf → buf.rawHeader = [] → buf = .useBuf buf.id

theorem Conn.Unread.takeBuf (h : c.Unread) (hr : c.takeBuf.2.rawHeader = []) :
    c.takeBuf.2 = .useBuf c.takeBuf.2.id := by
  unfold Conn.takeBuf at hr ⊢
  cases hm : c.incomingMsg with
  | none => rfl
  | some buf =>
    rw [hm] at hr
    exact h buf hm hr

theorem Conn.unread_of_idle (h : c.incomingMsg = none) : c.Unread := by
  intro buf hb
  rw [h] at hb
  cases hb

theorem RecvBuffer.ReadsBody.begun {isAuth : Bool} (h : buf.ReadsBody env isAuth) :
    buf.rawHeader ≠ [] := by
  intro he
  have hp := h.parsed
  rw [he] at hp
  cases hp

theorem RecvBuffer.store_nil (buf : RecvBuffer) : buf.store [] = buf := by
  unfold RecvBuffer.store
  cases hs : buf.state <;> simp [← hs]

theorem round_unread {r : ReadResult} (hf : c.Framed env) (h : c.Unread) :
    (round env c r).Unread := by
  have hround := round_cases env c r
  have hread := hf.takeBuf
  generalize round env c r = c' at hround ⊢
  cases hround with
  | dead hd => exact h
  | waits hd hb =>
    rintro buf ⟨⟩ hr
    exact h.takeBuf hr
  | @stored bytes hd hlen =>
    rintro buf ⟨⟩ hr
    by_cases hb : bytes = []
    · subst hb
      rw [RecvBuffer.store_nil] at hr ⊢
      exact h.takeBuf hr
    · rcases hread with hread | hread
      · simp [RecvBuffer.store, hread.state, hb] at hr
      · have hbegun := hread.begun
        simp only [RecvBuffer.store, hread.state] at hr
        exact absurd hr hbegun
  | hungUp hd hm =>
    obtain ⟨-, rfl⟩ := Conn.msgError_eq_ok.mp hm
    exact Conn.unread_of_idle rfl
  | @header bytes _ _ hd hne hlen hs hcase =>
    cases hcase with
    | refused hc hm =>
      obtain ⟨-, rfl⟩ := Conn.msgError_eq_ok.mp hm
      exact Conn.unread_of_idle rfl
    | reading hp hl hpos =>
      rintro buf ⟨⟩ hr
      change (c.takeBuf.2.store bytes).rawHeader = [] at hr
      rw [hr] at hp
      cases hp
    | empty hp h0 hdis =>
      obtain ⟨-, rfl⟩ := dispatch_eq_ok.mp hdis
      exact Conn.unread_of_idle rfl
  | body hd hne hlen hs hcase =>
    cases hcase with
    | refused hid hwhy hm =>
      obtain ⟨-, rfl⟩ := Conn.msgError_eq_ok.mp hm
      exact Conn.unread_of_idle rfl
    | plain hle hd hmore htype hdis =>
      obtain ⟨-, rfl⟩ := dispatch_eq_ok.mp hdis
      exact Conn.unread_of_idle rfl
    | fragError hle hd hwhy hcase hm =>
      obtain ⟨-, rfl⟩ := Conn.msgError_eq_ok.mp hm
      exact Conn.unread_of_idle rfl
    | held hle hd hmore hcase => exact Conn.unread_of_idle rfl
    | reassembled hle hd hmore htype hcase hdis =>
      obtain ⟨-, rfl⟩ := dispatch_eq_ok.mp hdis
      exact Conn.unread_of_idle rfl
  | faulted hd hcase => exact Conn.unread_of_idle c.takeBuf_incomingMsg

/-- What holds of a connection between two events, whatever the transports do. -/
structure Conn.Settled (env : Env) (c : Conn) : Prop where
  owning : c.Owning
  framed : c.Framed env
  unread : c.Unread

theorem Conn.Settled.status (h : c.Settled env) (status : LinkStatus) :
    ({ c with status := status } : Conn).Settled env :=
  ⟨⟨h.owning.lists, h.owning.held⟩, h.framed, h.unread⟩

theorem Conn.settled_of_idle (hk : c.Keeps) (h : c.incomingMsg = none) : c.Settled env :=
  ⟨⟨hk, fun buf hb => by rw [h] at hb; cases hb⟩, Conn.framed_of_idle h, Conn.unread_of_idle h⟩

theorem Conn.Settled.close (h : c.Settled env) : c.close.Settled env := by
  cases hm : c.incomingMsg with
  | none =>
    rw [Conn.close_idle hm]
    exact h.status .disconnected
  | some buf =>
    have ho := h.owning.held buf hm
    rw [Conn.close_held hm ho.live]
    exact Conn.settled_of_idle (Kept.release h.owning.lists ho) rfl

theorem netStep_settled (h : c.Settled env) (e : NetEvent) : (netStep env c e).Settled env := by
  cases e with
  | read r => exact ⟨round_owning h.owning, round_framed h.framed, round_unread h.framed h.unread⟩
  | timeout =>
    simp only [netStep]
    split
    · exact h
    · exact h.status _
  | closed =>
    simp only [netStep]
    split
    · exact h
    · exact h.close
  | tryReconnect result =>
    simp only [netStep]
    split
    · exact h
    · split
      all_goals first
        | exact h
        | exact h.status _
  | established ok =>
    simp only [netStep]
    split
    · exact h
    · split
      · exact h.status _
      · exact h.close

theorem Conn.initiated_settled (isAuth : Bool) (status : LinkStatus) :
    (Conn.initiated isAuth status).Settled env :=
  Conn.settled_of_idle (Conn.fresh_owning isAuth).lists rfl

/-- A connection beside the one that forgot what `left` holds: it still has the lists,
behind its own, and may still hold the message that was begun. -/
inductive Trails (left : Conn) : Conn → Conn → Prop
  | lists (d : Conn) : Trails left (d.behind left.incomingFrags) d
  | message (d : Conn) {buf : RecvBuffer} : left.incomingMsg = some buf → buf.rawHeader ≠ [] →
      d.incomingMsg = some (.useBuf buf.id) →
      Trails left { d.behind left.incomingFrags with incomingMsg := some buf } d

theorem Trails.dispatched {left : Conn} (h : Trails left c d) : c.dispatched = d.dispatched := by
  cases h <;> rfl

theorem Conn.close_behind : (d.behind old).close = d.close.behind old := by
  cases hm : d.incomingMsg with
  | none =>
    rw [Conn.close_idle hm, Conn.close_idle (show (d.behind old).incomingMsg = none from hm)]
    rfl
  | some buf =>
    have hm' : (d.behind old).incomingMsg = some buf := hm
    by_cases hg : buf.id ∈ d.gone
    · rw [Conn.close_gone hm hg, Conn.close_gone hm' hg]
      rfl
    · rw [Conn.close_held hm hg, Conn.close_held hm' hg]
      rfl

theorem Trails.close {left : Conn} (h : Trails left c d) : Trails left c.close d.close := by
  cases h with
  | lists =>
    rw [Conn.close_behind]
    exact .lists _
  | @message _ buf hbuf hbegun hd =>
    have hc : ({ d.behind left.incomingFrags with incomingMsg := some buf } : Conn).incomingMsg =
        some buf := rfl
    by_cases hg : buf.id ∈ d.gone
    · rw [Conn.close_gone hd hg, Conn.close_gone hc hg]
      exact .message { d with fault := some .doubleFree } hbuf hbegun hd
    · rw [Conn.close_held hd hg, Conn.close_held hc hg]
      exact .lists { d with status := .disconnected, incomingMsg := none, gone := buf.id :: d.gone }

theorem Trails.status {left : Conn} (h : Trails left c d) (status : LinkStatus) :
    Trails left { c with status := status } { d with status := status } := by
  cases h with
  | lists => exact .lists { d with status := status }
  | message _ hbuf hbegun hd => exact .message { d with status := status } hbuf hbegun hd

theorem joinedList_apply {id : Nat} {buf' : RecvBuffer} {r : ReadResult}
    (hb : completed env c r = some buf) (hm : messageId env buf = some (buf', id))
    (hf : buf.fragmented = true) : joinedList env c r = c.listFor buf id := by
  simp [joinedList, hb, hm, hf]

/-- A read keeps the two connections beside each other, if it starts anew. -/
theorem Trails.read {left : Conn} {r : ReadResult} (h : Trails left c d) (hc : c.Settled env)
    (hnew : StartsAnew env left c (.read r)) : Trails left (round env c r) (round env d r) := by
  cases h with
  | lists =>
    rw [round_behind ?skips]
    · exact .lists _
    case skips =>
      intro buf₁ hb hf buf' id hm
      obtain ⟨bytes, rfl, -⟩ := completed_some hb
      have hb' : completed env (d.behind left.incomingFrags) (.data bytes) = some buf₁ := by
        rw [← hb]
        simp only [completed, Conn.takeBuf_behind, Conn.dead_behind]
      have hdead : d.dead = false := by
        cases hd : d.dead with
        | false => rfl
        | true => simp [completed, hd] at hb
      have hne : bytes ≠ [] := by
        rintro rfl
        simp [completed] at hb
      have hlists := (hnew hdead hne).2
      rw [joinedList_apply hb' hm hf] at hlists
      refine skips_of_listFor hm (fun l hl => ?_) (fun l hl ho => ?_) buf' id hm
      · rw [Conn.takeBuf_gone]
        refine Kept.head_alive hc.owning.lists ?_
        exact List.mem_append_right _ hl
      · have hsame : (d.takeBuf.1.behind left.incomingFrags).listFor buf₁ id =
            (d.behind left.incomingFrags).listFor buf₁ id := by
          simp [Conn.listFor, Conn.behind]
        exact hlists l (hsame ▸ hl) l ho rfl
  | @message _ buf hbuf hbegun hd =>
    have htake : d.takeBuf = ({ d with incomingMsg := none }, .useBuf buf.id) := by
      simp [Conn.takeBuf, hd]
    by_cases hdead : d.dead = true
    · have hdead' : ({ d.behind left.incomingFrags with incomingMsg := some buf } : Conn).dead =
          true := hdead
      rw [round, round, if_pos hdead, if_pos hdead']
      exact .message d hbuf hbegun hd
    have hdead' : ¬ ({ d.behind left.incomingFrags with incomingMsg := some buf } : Conn).dead =
        true := hdead
    have hkeep : Trails left
        { d.behind left.incomingFrags with incomingMsg := some buf }
        { d with incomingMsg := some (.useBuf buf.id) } :=
      .message { d with incomingMsg := some (.useBuf buf.id) } hbuf hbegun rfl
    rw [round, round, if_neg hdead, if_neg hdead', htake]
    cases r with
    | wouldBlock => exact hkeep
    | fatal =>
      simp only [Conn.takeBuf, roundOn, handleRead, Conn.msgError_eq]
      by_cases hg : buf.id ∈ d.gone
      · simp only [Conn.behind, RecvBuffer.useBuf, hg, if_true]
        exact .lists { d with incomingMsg := none, fault := some .doubleFree }
      · simp only [Conn.behind, RecvBuffer.useBuf, hg, if_false]
        exact .lists
          { d with incomingMsg := none, gone := buf.id :: d.gone, status := .disconnected }
    | data bytes =>
      by_cases hb : bytes = []
      · simp only [Conn.takeBuf, roundOn, hb, true_or, if_true]
        exact hkeep
      · have hno := (hnew (by simpa using hdead') hb).1 buf hbuf hbegun
        exact absurd rfl hno

theorem netStep_trails {left : Conn} {e : NetEvent} (h : Trails left c d) (hc : c.Settled env)
    (hnew : StartsAnew env left c e) : Trails left (netStep env c e) (netStep env d e) := by
  have hsame : c.fault = d.fault ∧ c.status = d.status := by
    cases h <;> exact ⟨rfl, rfl⟩
  cases e with
  | read r => exact h.read hc hnew
  | timeout =>
    simp only [netStep, hsame.1, hsame.2]
    split
    · exact h
    · simpa only [hsame.1] using h.status .timeout
  | closed =>
    simp only [netStep, hsame.1]
    split
    · exact h
    · exact h.close
  | tryReconnect result =>
    simp only [netStep, hsame.1, hsame.2]
    split
    · exact h
    · split
      all_goals first
        | exact h
        | simpa only [hsame.1] using h.status .connecting
        | simpa only [hsame.1] using h.status .connected
  | established ok =>
    simp only [netStep, hsame.1, hsame.2]
    split
    · exact h
    · split
      · simpa only [hsame.1] using h.status .connected
      · exact h.close

theorem run_trails {left : Conn} {es : List NetEvent} (h : Trails left c d) (hc : c.Settled env)
    (hnew : Meets (netStep env) (StartsAnew env left) c es) :
    Trails left (run (netStep env) c es) (run (netStep env) d es) := by
  induction es generalizing c d with
  | nil => exact h
  | cons e es ih => exact ih (netStep_trails h hc hnew.1) (netStep_settled hc e) hnew.2

theorem Conn.Settled.trails_renew (h : c.Settled env) : Trails c c c.renew := by
  obtain ⟨msg, frags, status, isAuth, buffers, allocs, gone, dispatched, fault⟩ := c
  cases msg with
  | none => exact .lists (Conn.renew ⟨none, frags, status, isAuth, buffers, allocs, gone, dispatched, fault⟩)
  | some buf =>
    by_cases hr : buf.rawHeader = []
    · have hbuf := h.unread buf rfl hr
      rw [hbuf]
      exact .lists (Conn.renew ⟨some (.useBuf buf.id), frags, status, isAuth, buffers, allocs, gone, dispatched, fault⟩)
    · exact .message (Conn.renew ⟨some buf, frags, status, isAuth, buffers, allocs, gone, dispatched, fault⟩) rfl hr rfl

/-- In every run and for every reconnect in it: as long as nothing on the new transport goes
on with what the old ones left, the messages handed out are those that the connection
would hand out if it had forgotten everything at the reconnect. -/
theorem reconnected_fresh (env : Env) (isAuth : Bool) (status : LinkStatus)
    (before after : List NetEvent) (result : Initiate) :
    let c := run (netStep env) (.initiated isAuth status) (before ++ [.tryReconnect result])
    Meets (netStep env) (StartsAnew env c) c after →
      (run (netStep env) c after).dispatched = (run (netStep env) c.renew after).dispatched := by
  intro c hnew
  have hc : (run (netStep env) (.initiated isAuth status)
      (before ++ [.tryReconnect result])).Settled env :=
    run_invariant (P := Conn.Settled env) (fun _ e h => netStep_settled h e) _
      (Conn.initiated_settled isAuth status)
  exact (run_trails hc.trails_renew hc hnew).dispatched

/-- The last transport broke in a header; the message read on the new one has nothing of it. -/
theorem reconnected_fresh_closed :
    let env : Env := ⟨.little, 1000, fun _ => .moved, fun _ => false⟩
    let after := (readMessage ⟨.v1_2, 1, .locateReply, 8⟩ [7, 0, 0, 0, 1, 0, 0, 0]).map .read
    let c := run (netStep env) (.initiated false .connected)
      ([.read (.data [71, 73]), .closed] ++ [.tryReconnect .connected])
    (run (netStep env) c after).dispatched = (run (netStep env) c.renew after).dispatched :=
  reconnected_fresh _ false .connected [.read (.data [71, 73]), .closed] _ .connected
    (by decide)

/-- The first half of a locate reply, a broken transport, and the second half on the next:
one message made of both. -/
theorem twoTransports_joined :
    let env : Env := ⟨.little, 1000, fun _ => .moved, fun _ => false⟩
    let c := run (netStep env) (.initiated false .connected)
      ((readMessage ⟨.v1_2, 3, .locateReply, 8⟩ [7, 0, 0, 0, 1, 0, 0, 0]).map .read ++
        [.read .fatal, .tryReconnect .connected])
    let after := (readMessage ⟨.v1_2, 1, .fragment, 8⟩ [7, 0, 0, 0, 5, 6, 7, 8]).map .read
    (run (netStep env) c after).dispatched.map (·.body) =
        [[7, 0, 0, 0, 1, 0, 0, 0, 5, 6, 7, 8]] ∧
      (run (netStep env) c after).dispatched ≠ (run (netStep env) c.renew after).dispatched := by
  intro env c after
  have hbody : (run (netStep env) c after).dispatched.map (·.body) =
      [[7, 0, 0, 0, 1, 0, 0, 0, 5, 6, 7, 8]] := by decide
  have hnone : (run (netStep env) c.renew after).dispatched.map (·.body) = [] := by decide
  refine ⟨hbody, fun he => ?_⟩
  rw [he, hnone] at hbody
  cases hbody

end

end ORBit2
