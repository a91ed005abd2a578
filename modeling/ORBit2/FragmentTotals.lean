import ORBit2.Effects

/-! The total that the head of a fragment list keeps in 32 bits, and the block that is obtained from
it. -/

set_option autoImplicit false

namespace ORBit2
open Words Runs

/-- `buf->end - buf->cur` -/
def RecvBuffer.left (buf : RecvBuffer) : Int := buf.stop - buf.cur

/-- The bytes of the head and of the buffers behind it, without an end to the numbers. -/
def FragList.total (l : FragList) : Int := l.head.body.length + (l.tail.map RecvBuffer.left).sum

/-- A statement on the list that a completed message joins, and on the message behind its request
id. -/
def onJoin (P : FragList → RecvBuffer → Prop) (env : Env) (c : Conn) (r : ReadResult) : Prop :=
  match completed env c r with
  | none => True
  | some buf =>
      match messageId env buf with
      | none => True
      | some (part, id) =>
          match c.listFor buf id with
          | none => True
          | some l =>
              buf.fragmented = true → l.head.header.messageType ≠ .fragment → P l part

instance {P : FragList → RecvBuffer → Prop} [∀ l part, Decidable (P l part)] (env : Env) (c : Conn)
    (r : ReadResult) : Decidable (onJoin P env c r) := by
  unfold onJoin
  induction completed env c r using Option.casesOn with
  | none => infer_instance
  | some buf =>
    dsimp only
    induction messageId env buf using Option.casesOn with
    | none => infer_instance
    | some found =>
      dsimp only
      induction c.listFor buf found.2 using Option.casesOn <;> infer_instance

/-- `concat_frags` is given a block for a head and the buffers behind it. -/
def concatenates (env : Env) (c : Conn) (part : RecvBuffer) : Prop :=
  part.header.moreFragments = false ∧ env.realloc c.allocs ≠ .fail

instance (env : Env) (c : Conn) (part : RecvBuffer) : Decidable (concatenates env c part) :=
  inferInstanceAs (Decidable (_ ∧ _))

/-- The total stays below 2^32, and no buffer that is copied is shorter than its decoded header. -/
def Countable (env : Env) (c : Conn) (l : FragList) (part : RecvBuffer) : Prop :=
  0 ≤ l.total + part.left ∧ l.total + part.left < 2^32 ∧
    (concatenates env c part → ∀ buf ∈ l.tail ++ [part], 0 ≤ buf.left)

instance (env : Env) (c : Conn) (l : FragList) (part : RecvBuffer) :
    Decidable (Countable env c l part) := inferInstanceAs (Decidable (_ ∧ _ ∧ (_ → _)))

def countable (env : Env) (c : Conn) (r : ReadResult) : Prop := onJoin (Countable env c) env c r

instance (env : Env) (c : Conn) (r : ReadResult) : Decidable (countable env c r) :=
  inferInstanceAs (Decidable (onJoin _ env c r))

/-- The bytes `alloc_buffer` obtains for `concat_frags`. -/
def concatBlock (head : RecvBuffer) : Nat := 12 + (head.header.messageSize + (head.cur - 12))

/-- The running total does not wrap, and the message put together from it is as long as its parts
and fits its block. -/
structure Adds (env : Env) (c : Conn) (l : FragList) (part : RecvBuffer) : Prop where
  total : ((addLength l.head part).header.messageSize : Int) =
    l.head.header.messageSize + part.left
  ends : part.header.moreFragments = false → ∀ fault,
    concatFrags env c (addLength l.head part) (l.tail ++ [part]) ≠ .error fault
  whole : part.header.moreFragments = false → ∀ c' new,
    concatFrags env c (addLength l.head part) (l.tail ++ [part]) = .ok (c', some new) →
      new.stop = l.head.stop + ((l.tail ++ [part]).flatMap RecvBuffer.remaining).length ∧
        new.stop ≤ concatBlock (addLength l.head part)

def adds (env : Env) (c : Conn) (r : ReadResult) : Prop := onJoin (Adds env c.takeBuf.1) env c r

section
variable {env : Env} {c : Conn} {buf part : RecvBuffer} {id : Nat} {r : ReadResult}
  {before after : List FragList} {l : FragList} {P Q : FragList → RecvBuffer → Prop}

theorem listFor_joins (h : c.listFor buf id = some l)
    (ht : l.head.header.messageType ≠ .fragment) : ∃ before after, c.Joins buf id before l after := by
  unfold Conn.listFor at h
  cases hf : c.incomingFrags.find? (·.head.requestId = id) with
  | some l' =>
    rw [hf] at h
    cases h
    obtain ⟨hid, before, after, hl, hbefore⟩ := List.find?_eq_some_iff_append.mp hf
    exact ⟨before, after, hl, .inl ⟨by simpa using hid, fun x hx => by simpa using hbefore x hx⟩, ht⟩
  | none =>
    simp only [hf] at h
    split at h
    · rename_i hv
      cases hl : c.incomingFrags with
      | nil =>
        rw [hl] at h
        cases h
      | cons first rest =>
        rw [hl] at h
        cases h
        refine ⟨[], rest, hl, .inr ⟨hv, rfl, fun x hx => ?_⟩, ht⟩
        simpa using List.find?_eq_none.mp hf x hx
    · cases h

theorem onJoin_apply (h : onJoin P env c r) (hb : completed env c r = some buf)
    (hm : messageId env buf = some (part, id)) (hj : c.Joins buf id before l after)
    (hf : buf.fragmented = true) : P l part := by
  unfold onJoin at h
  simp only [hb, hm, hj.listFor] at h
  exact h hf hj.head

theorem onJoin_imp (h : onJoin P env c r)
    (hPQ : ∀ buf part id before l after, completed env c r = some buf →
      messageId env buf = some (part, id) → c.Joins buf id before l after →
      buf.fragmented = true → P l part → Q l part) : onJoin Q env c r := by
  unfold onJoin at h ⊢
  cases hb : completed env c r with
  | none => trivial
  | some buf =>
    cases hm : messageId env buf with
    | none => simp only [hm]
    | some p =>
      obtain ⟨part, id⟩ := p
      cases hl : c.listFor buf id with
      | none => simp only [hm, hl]
      | some l =>
        simp only [hb, hm, hl] at h ⊢
        intro hf ht
        obtain ⟨before, after, hj⟩ := listFor_joins hl ht
        exact hPQ buf part id before l after hb hm hj hf (h hf ht)

/-- What the lists hold. -/
structure FragList.Counted (l : FragList) : Prop where
  total : (l.head.header.messageSize : Int) = l.total
  stop : l.head.stop = 12 + l.head.body.length
  free : l.head.freeBody = true
  full : ∀ buf ∈ l.tail, buf.data.length = buf.stop

def Conn.Counted (c : Conn) : Prop := ∀ l ∈ c.incomingFrags, l.Counted

theorem total_join (l : FragList) (part : RecvBuffer) :
    (FragList.mk (addLength l.head part) (l.tail ++ [part])).total = l.total + part.left := by
  simp only [FragList.total, addLength, List.map_append, List.sum_append, List.map_cons,
    List.map_nil, List.sum_cons, List.sum_nil]
  omega

/-- The total with one more buffer wraps or does not. -/
theorem addLength_total (h : l.Counted) (part : RecvBuffer) :
    ((addLength l.head part).header.messageSize : Int) = l.head.header.messageSize + part.left ↔
      0 ≤ l.total + part.left ∧ l.total + part.left < 2^32 := by
  have ht := h.total
  simp only [addLength, RecvBuffer.left] at *
  omega

/-- The bytes to copy of buffers that have some. -/
theorem remaining_length {bufs : List RecvBuffer}
    (hfull : ∀ buf ∈ bufs, buf.data.length = buf.stop) (hleft : ∀ buf ∈ bufs, 0 ≤ buf.left) :
    ((bufs.flatMap RecvBuffer.remaining).length : Int) = (bufs.map RecvBuffer.left).sum := by
  induction bufs with
  | nil => rfl
  | cons buf bufs ih =>
    rw [List.forall_mem_cons] at hfull hleft
    have hrest := ih hfull.2 hleft.2
    rw [List.flatMap_cons, List.length_append, List.map_cons, List.sum_cons, Nat.cast_add, hrest,
      RecvBuffer.remaining, List.length_drop, hfull.1]
    have hle := hleft.1
    unfold RecvBuffer.left at hle ⊢
    omega

/-- What is put together of buffers that are there. -/
theorem concatFrags_ends {head : RecvBuffer} {tail : List RecvBuffer}
    (hfree : head.freeBody = true) (halive : ∀ buf ∈ tail, buf.id ∉ c.gone)
    (hle : env.realloc c.allocs ≠ .fail → ∀ buf ∈ tail, buf.cur ≤ buf.stop)
    (hfits : env.realloc c.allocs ≠ .fail →
      head.stop + (tail.flatMap RecvBuffer.remaining).length ≤ concatBlock head) (fault : Fault) :
    concatFrags env c head tail ≠ .error fault := by
  intro h
  by_cases hr : env.realloc c.allocs = .fail
  · unfold concatFrags allocBuffer at h
    simp only [hfree, Bool.true_eq_false, if_false, hr] at h
    cases h
  · obtain ⟨-, hlt⟩ := concatFrags_error hfree (fun buf hb => ⟨halive buf hb, hle hr buf hb⟩) h
    have hblock := hfits hr
    unfold concatBlock at hblock
    omega

/-- The block is as long as what is put into it. -/
theorem concat_fits (h : l.Counted) (hpart : part.data.length = part.stop)
    (ht : ((addLength l.head part).header.messageSize : Int) =
      l.head.header.messageSize + part.left)
    (hleft : ∀ buf ∈ l.tail ++ [part], 0 ≤ buf.left) :
    l.head.stop + ((l.tail ++ [part]).flatMap RecvBuffer.remaining).length ≤
      concatBlock (addLength l.head part) := by
  have hfull : ∀ buf ∈ l.tail ++ [part], buf.data.length = buf.stop := by
    rw [List.forall_mem_append, List.forall_mem_singleton]
    exact ⟨h.full, hpart⟩
  have hlen := remaining_length hfull hleft
  have htotal := h.total
  have hstop := h.stop
  rw [List.map_append, List.sum_append] at hlen
  simp only [FragList.total, List.map_cons, List.map_nil, List.sum_cons, List.sum_nil] at htotal hlen
  unfold concatBlock
  omega

/-- For a list that counts right it is the total and the lengths that decide. -/
theorem adds_iff (h : l.Counted) (hpart : part.data.length = part.stop)
    (halive : ∀ buf ∈ l.tail ++ [part], buf.id ∉ c.gone) :
    Adds env c l part ↔ Countable env c l part := by
  have htotal := addLength_total h part
  have hnonneg : ∀ buf : RecvBuffer, 0 ≤ buf.left ↔ buf.cur ≤ buf.stop := by
    intro buf
    unfold RecvBuffer.left
    omega
  constructor
  · intro ha
    obtain ⟨hlow, hhigh⟩ := htotal.mp ha.total
    refine ⟨hlow, hhigh, fun ⟨hlast, hr⟩ => ?_⟩
    cases hc : concatFrags env c (addLength l.head part) (l.tail ++ [part]) with
    | error fault => exact absurd hc (ha.ends hlast fault)
    | ok p =>
      obtain ⟨c', new⟩ := p
      cases new with
      | none => exact absurd (concatFrags_none hc).2 hr
      | some new =>
        intro buf hb
        exact (hnonneg buf).mpr ((concatFrags_some hc).2.1 buf hb).2
  · rintro ⟨hlow, hhigh, hleft⟩
    have ht := htotal.mpr ⟨hlow, hhigh⟩
    refine ⟨ht, fun hlast fault => ?_, fun hlast c' new hc => ?_⟩
    · refine concatFrags_ends (show (addLength l.head part).freeBody = true from h.free) halive (fun hr buf hb => ?_) (fun hr => ?_) fault
      · exact (hnonneg buf).mp (hleft ⟨hlast, hr⟩ buf hb)
      · exact concat_fits h hpart ht (hleft ⟨hlast, hr⟩)
    · obtain ⟨-, hb, block, rfl, -⟩ := concatFrags_some hc
      refine ⟨rfl, concat_fits h hpart ht fun buf hbuf => ?_⟩
      exact (hnonneg buf).mpr (hb buf hbuf).2

/-- The buffers of a list that a message joins are alive, and so is the message. -/
theorem joined_alive (hown : c.Owning) (hb : completed env c r = some buf)
    (hm : messageId env buf = some (part, id)) (hj : c.Joins buf id before l after) :
    ∀ b ∈ l.tail ++ [part], b.id ∉ c.takeBuf.1.gone := by
  obtain ⟨hk, ho⟩ := hown.takeBuf
  have howned := completed_owns ho hb
  rw [Conn.Keeps, Conn.takeBuf_incomingFrags, hj.lists] at hk
  rw [Conn.Owns, Conn.takeBuf_incomingFrags, hj.lists, ← messageId_id hm] at howned
  have hjoin := Kept.join hk howned
  exact hjoin.tail_free.2

theorem joined_full (hframed : c.Framed env) (hb : completed env c r = some buf)
    (hm : messageId env buf = some (part, id)) : part.data.length = part.stop :=
  messageId_full hm (completed_arrived hframed hb).full

theorem countable_iff_adds (hc : c.Counted) (hown : c.Owning) (hframed : c.Framed env) :
    countable env c r ↔ adds env c r := by
  have hsame : ∀ buf part id before l after, completed env c r = some buf →
      messageId env buf = some (part, id) → c.Joins buf id before l after →
      (Adds env c.takeBuf.1 l part ↔ Countable env c l part) := by
    intro buf part id before l after hb hm hj
    have hl : l.Counted := hc l (by simp [hj.lists])
    have hiff : Adds env c.takeBuf.1 l part ↔ Countable env c.takeBuf.1 l part :=
      adds_iff hl (joined_full hframed hb hm) (joined_alive hown hb hm hj)
    rw [hiff]
    simp only [Countable, concatenates, Conn.takeBuf_allocs]
  constructor
  · exact fun h => onJoin_imp h fun buf part id before l after hb hm hj _ =>
      (hsame buf part id before l after hb hm hj).mpr
  · exact fun h => onJoin_imp h fun buf part id before l after hb hm hj _ =>
      (hsame buf part id before l after hb hm hj).mp

/-- A read whose totals do not wrap leaves lists that count right. -/
theorem round_counted (h : c.Counted) (hframed : c.Framed env) (hr : countable env c r) :
    (round env c r).Counted := by
  have heff := round_effect env c r
  generalize round env c r = c' at heff ⊢
  cases heff with
  | quiet hfrags => exact fun l hl => h l (hfrags ▸ hl)
  | empty hr' hlen hs hp h0 hto hfrags => exact fun l hl => h l (hfrags ▸ hl)
  | plain hb hf hto hfrags => exact fun l hl => h l (hfrags ▸ hl)
  | @opened buf buf' id hb hm hnot hmore hfrags =>
    have ha := completed_arrived hframed hb
    rw [Conn.Counted, hfrags, List.forall_mem_cons]
    refine ⟨⟨?_, ?_, ?_, fun b hbuf => by cases hbuf⟩, h⟩
    · simp only [FragList.total, List.map_nil, List.sum_nil, messageId_header hm, messageId_body hm]
      have := ha.body_length
      omega
    · have hfull := messageId_full hm ha.full
      rw [RecvBuffer.data_length] at hfull
      exact hfull.symm
    · rcases messageId_some hm with ⟨-, rfl, -⟩ | ⟨-, -, rfl, -⟩ | ⟨-, -, rfl, -⟩ <;> exact ha.owned
  | @joined buf buf' id before after l hb hm hj hmore hfrags =>
    have hc := onJoin_apply hr hb hm hj (by simp [RecvBuffer.fragmented, hmore])
    have hlists : ∀ x ∈ before ++ l :: after, x.Counted := hj.lists ▸ h
    rw [List.forall_mem_append, List.forall_mem_cons] at hlists
    rw [Conn.Counted, hfrags, List.forall_mem_append, List.forall_mem_cons]
    refine ⟨hlists.1, ?_, hlists.2.2⟩
    have hl := hlists.2.1
    have htotal := (addLength_total hl buf').mpr ⟨hc.1, hc.2.1⟩
    refine ⟨?_, hl.stop, hl.free, ?_⟩
    · rw [total_join, ← hl.total]
      exact htotal
    · rw [List.forall_mem_append, List.forall_mem_singleton]
      exact ⟨hl.full, joined_full hframed hb hm⟩
  | @whole buf buf' id before after l block hb hm hj hmore hlast hle hblock hto hfrags hdis =>
    have hlists : ∀ x ∈ before ++ l :: after, x.Counted := hj.lists ▸ h
    rw [List.forall_mem_append, List.forall_mem_cons] at hlists
    rw [Conn.Counted, hfrags, List.forall_mem_append]
    exact ⟨hlists.1, hlists.2.2⟩
  | @dropped buf buf' id before after l hb hm hj hmore hlast hfrags hdis hwhy =>
    have hlists : ∀ x ∈ before ++ l :: after, x.Counted := hj.lists ▸ h
    rw [List.forall_mem_append, List.forall_mem_cons] at hlists
    rw [Conn.Counted, hfrags, List.forall_mem_append]
    exact ⟨hlists.1, hlists.2.2⟩

/-- What holds in the beginning and after every read whose totals do not wrap. -/
structure Conn.Adding (env : Env) (c : Conn) : Prop where
  counted : c.Counted
  owning : c.Owning
  framed : c.Framed env

theorem Conn.fresh_adding (env : Env) (isAuth : Bool) : (Conn.fresh isAuth).Adding env :=
  ⟨fun l hl => (by cases hl), Conn.fresh_owning isAuth, Conn.fresh_framed isAuth⟩

theorem round_adding (h : c.Adding env) (hr : countable env c r) : (round env c r).Adding env :=
  ⟨round_counted h.counted h.framed hr, round_owning h.owning, round_framed h.framed⟩

theorem countable_of_adds {isAuth : Bool} {rs : List ReadResult}
    (h : Meets (round env) (adds env) (.fresh isAuth) rs) :
    Meets (round env) (countable env) (.fresh isAuth) rs := by
  have hiff : ∀ c r, c.Adding env → adds env c r → countable env c r :=
    fun c r hc => (countable_iff_adds hc.counted hc.owning hc.framed).mpr
  exact h.imp (fun c r hc hr => round_adding hc (hiff c r hc hr)) hiff (Conn.fresh_adding env isAuth)

/-- The runs in which totals do not wrap, and no buffer shorter than its decoded header is copied,
are those in which every message is put together right. -/
theorem countable_iff_adds_run (env : Env) (isAuth : Bool) (rs : List ReadResult) :
    Meets (round env) (countable env) (.fresh isAuth) rs ↔
      Meets (round env) (adds env) (.fresh isAuth) rs := by
  constructor
  · intro h
    exact h.imp (fun c r hc => round_adding hc)
      (fun c r hc => (countable_iff_adds hc.counted hc.owning hc.framed).mp)
      (Conn.fresh_adding env isAuth)
  · exact countable_of_adds

/-- A reply ends in a service context of 4 bytes: its header is decoded to the next multiple of 8,
4 bytes behind its end. A second one with its id joins the first, and the fragment behind them makes
`concat_frags` copy -4 bytes. -/
theorem shortReply_not_adds :
    let env : Env := ⟨.little, 1000, fun _ => .moved, fun _ => false⟩
    let body : List UInt8 := [7, 0, 0, 0, 0, 0, 0, 0, 1, 0, 0, 0, 5, 0, 0, 0, 4, 0, 0, 0, 1, 2, 3, 4]
    let rs := readMessages [(⟨.v1_2, 3, .reply, 24⟩, body), (⟨.v1_2, 3, .reply, 24⟩, body),
      (⟨.v1_2, 1, .fragment, 8⟩, [7, 0, 0, 0, 1, 2, 3, 4])]
    (run (round env) (.fresh true) rs).fault = some .negativeLength ∧
      ¬ Meets (round env) (adds env) (.fresh true) rs := by
  refine ⟨by decide_cbv, fun h => ?_⟩
  exact absurd (countable_of_adds h) (by decide_cbv)

end

end ORBit2
