import ORBit2.RecvConnection

/-! What each function of the receiving code can do, said once. Every invariant of
a connection is derived from these lemmas. -/

set_option autoImplicit false

namespace ORBit2
open Words

theorem Conn.unuse_eq_ok {c c' : Conn} {buf : RecvBuffer} :
    c.unuse buf = .ok c' ↔ buf.id ∉ c.gone ∧ c' = { c with gone := buf.id :: c.gone } := by
  unfold Conn.unuse
  by_cases h : buf.id ∈ c.gone
  · simp [h]
  · simp [h, eq_comm]

theorem Conn.unuseAll_eq_ok {c c' : Conn} {bufs : List RecvBuffer} :
    c.unuseAll bufs = .ok c' ↔
      (bufs.map (·.id)).Nodup ∧ (∀ buf ∈ bufs, buf.id ∉ c.gone) ∧
      c' = { c with gone := (bufs.map (·.id)).reverse ++ c.gone } := by
  induction bufs generalizing c with
  | nil => simp [Conn.unuseAll, eq_comm]
  | cons buf bufs ih =>
    cases hu : c.unuse buf with
    | error fault =>
      have hg : buf.id ∈ c.gone := by
        by_cases h : buf.id ∈ c.gone
        · exact h
        · simp [Conn.unuse, h] at hu
      simp [Conn.unuseAll, hu, bind, Except.bind, hg]
    | ok c1 =>
      obtain ⟨hg, rfl⟩ := Conn.unuse_eq_ok.mp hu
      simp only [Conn.unuseAll, hu, bind, Except.bind, ih, List.map_cons, List.nodup_cons,
        List.forall_mem_cons, List.reverse_cons, List.append_assoc, List.singleton_append]
      constructor
      · rintro ⟨hn, hf, rfl⟩
        simp only [List.mem_cons, not_or] at hf
        refine ⟨⟨?_, hn⟩, ⟨hg, fun b hb => (hf b hb).2⟩, rfl⟩
        simp only [List.mem_map, not_exists, not_and]
        exact fun b hb he => (hf b hb).1 he
      · rintro ⟨⟨hm, hn⟩, ⟨-, hf⟩, rfl⟩
        refine ⟨hn, fun b hb => ?_, rfl⟩
        simp only [List.mem_cons, not_or]
        refine ⟨fun he => hm ?_, hf b hb⟩
        rw [← he]
        exact List.mem_map_of_mem hb

theorem Conn.disconnect_idle {c : Conn} (h : c.incomingMsg = none) :
    c.disconnect = .ok { c with status := .disconnected } := by
  rw [Conn.disconnect, h]

theorem Conn.msgError_eq (c : Conn) (buf : RecvBuffer) :
    c.msgError buf = if buf.id ∈ c.gone then .error .doubleFree
      else .ok { c with incomingMsg := none, gone := buf.id :: c.gone, status := .disconnected } := by
  unfold Conn.msgError Conn.unuse
  by_cases h : buf.id ∈ c.gone
  · simp [h, bind, Except.bind]
  · simp [h, bind, Except.bind, Conn.disconnect]

theorem Conn.msgError_eq_ok {c c' : Conn} {buf : RecvBuffer} :
    c.msgError buf = .ok c' ↔ buf.id ∉ c.gone ∧ c' = { c with
      incomingMsg := none, gone := buf.id :: c.gone, status := .disconnected } := by
  rw [Conn.msgError_eq]
  by_cases h : buf.id ∈ c.gone
  · simp [h]
  · simp [h, eq_comm]

/-- What `alloc_buffer` leaves in the buffer. -/
theorem allocBuffer_some {env : Env} {c c' : Conn} {buf buf' : RecvBuffer} {old : Option Nat}
    {size : Nat} (h : allocBuffer env c buf old size = (c', some buf')) :
    c' = { c with allocs := c.allocs + 1 } ∧
    ∃ block, buf' = { buf with
      block := some block, freeBody := true, cur := 12, stop := 12 + size, leftToRead := size } ∧
      ((env.realloc c.allocs = .inPlace ∧ old = some block) ∨
        (block = c.allocs ∧ (old = none ∨ env.realloc c.allocs = .moved))) := by
  unfold allocBuffer at h
  cases hr : env.realloc c.allocs <;> cases old <;> simp [hr] at h <;>
    obtain ⟨rfl, rfl⟩ := h <;> simp

theorem allocBuffer_none {env : Env} {c c' : Conn} {buf : RecvBuffer} {old : Option Nat}
    {size : Nat} (h : allocBuffer env c buf old size = (c', none)) :
    c' = { c with allocs := c.allocs + 1 } ∧ env.realloc c.allocs = .fail := by
  unfold allocBuffer at h
  cases hr : env.realloc c.allocs <;> cases old <;> simp [hr] at h <;> exact ⟨h.symm, rfl⟩

/-- The first list whose head has the id, and the lists in front of it. -/
theorem findFrag_some {c : Conn} {id : Nat} {lists before after : List FragList} {frags : FragList}
    (h : findFrag c id lists = .ok (some (before, frags, after))) :
    lists = before ++ frags :: after ∧ frags.head.requestId = id ∧
      ∀ l ∈ before, l.head.requestId ≠ id := by
  induction lists generalizing before with
  | nil => simp [findFrag] at h
  | cons first rest ih =>
    unfold findFrag Conn.access at h
    by_cases hg : first.head.id ∈ c.gone
    · simp [hg, bind, Except.bind] at h
    by_cases hid : first.head.requestId = id
    · simp [hg, hid, bind, Except.bind, pure, Except.pure] at h
      obtain ⟨rfl, rfl, rfl⟩ := h
      simp [hid]
    · cases hr : findFrag c id rest with
      | error fault => simp [hg, hid, hr, bind, Except.bind] at h
      | ok found =>
        cases found with
        | none => simp [hg, hid, hr, bind, Except.bind, pure, Except.pure] at h
        | some z =>
          obtain ⟨b, f, a⟩ := z
          simp [hg, hid, hr, bind, Except.bind, pure, Except.pure] at h
          obtain ⟨rfl, rfl, rfl⟩ := h
          obtain ⟨hl, he, hb⟩ := ih hr
          exact ⟨by rw [hl]; rfl, he, by simpa [hid] using hb⟩

theorem findFrag_none {c : Conn} {id : Nat} {lists : List FragList}
    (h : findFrag c id lists = .ok none) : ∀ l ∈ lists, l.head.requestId ≠ id := by
  induction lists with
  | nil => simp
  | cons first rest ih =>
    unfold findFrag Conn.access at h
    by_cases hg : first.head.id ∈ c.gone
    · simp [hg, bind, Except.bind] at h
    by_cases hid : first.head.requestId = id
    · simp [hg, hid, bind, Except.bind, pure, Except.pure] at h
    · cases hr : findFrag c id rest with
      | error fault => simp [hg, hid, hr, bind, Except.bind] at h
      | ok found =>
        cases found with
        | none => simpa [hid] using ih hr
        | some z => simp [hg, hid, hr, bind, Except.bind, pure, Except.pure] at h

/-- With every head alive the search does not fail. -/
theorem findFrag_ok {c : Conn} {id : Nat} {lists : List FragList}
    (h : ∀ l ∈ lists, l.head.id ∉ c.gone) : ∃ found, findFrag c id lists = .ok found := by
  induction lists with
  | nil => exact ⟨none, rfl⟩
  | cons first rest ih =>
    obtain ⟨found, hf⟩ := ih (fun l hl => h l (by simp [hl]))
    have hg := h first (by simp)
    unfold findFrag Conn.access
    by_cases hid : first.head.requestId = id
    · exact ⟨_, by simp [hg, hid, bind, Except.bind]; rfl⟩
    · cases found with
      | none => exact ⟨none, by simp [hg, hid, hf, bind, Except.bind, pure, Except.pure]⟩
      | some z => exact ⟨_, by simp [hg, hid, hf, bind, Except.bind, pure, Except.pure]; rfl⟩

/-- The list a message joins: the first with its id, or in GIOP 1.1 the first of all. -/
theorem getFrag_some {c : Conn} {id : Nat} {first : Bool} {before after : List FragList}
    {frags : FragList} (h : getFrag c id first = .ok (some (before, frags, after))) :
    c.incomingFrags = before ++ frags :: after ∧
      ((frags.head.requestId = id ∧ ∀ l ∈ before, l.head.requestId ≠ id) ∨
       (first = true ∧ before = [] ∧ ∀ l ∈ c.incomingFrags, l.head.requestId ≠ id)) := by
  unfold getFrag at h
  cases hf : findFrag c id c.incomingFrags with
  | error fault => simp [hf, bind, Except.bind] at h
  | ok found =>
    cases found with
    | some z =>
      simp [hf, bind, Except.bind, pure, Except.pure] at h
      subst h
      obtain ⟨hl, he, hb⟩ := findFrag_some hf
      exact ⟨hl, .inl ⟨he, hb⟩⟩
    | none =>
      have hn := findFrag_none hf
      simp only [hf, bind, Except.bind] at h
      cases first with
      | false => simp [pure, Except.pure] at h
      | true =>
        cases hl : c.incomingFrags with
        | nil => simp [hl, pure, Except.pure] at h
        | cons head rest =>
          simp [hl, pure, Except.pure] at h
          obtain ⟨rfl, rfl, rfl⟩ := h
          exact ⟨rfl, .inr ⟨rfl, rfl, by rwa [hl] at hn⟩⟩

theorem getFrag_none {c : Conn} {id : Nat} {first : Bool} (h : getFrag c id first = .ok none) :
    (∀ l ∈ c.incomingFrags, l.head.requestId ≠ id) ∧ (first = true → c.incomingFrags = []) := by
  unfold getFrag at h
  cases hf : findFrag c id c.incomingFrags with
  | error fault => simp [hf, bind, Except.bind] at h
  | ok found =>
    cases found with
    | some z => simp [hf, bind, Except.bind, pure, Except.pure] at h
    | none =>
      refine ⟨findFrag_none hf, ?_⟩
      rintro rfl
      simp only [hf, bind, Except.bind] at h
      cases hl : c.incomingFrags with
      | nil => rfl
      | cons head rest => simp [hl, pure, Except.pure] at h

theorem getFrag_ok {c : Conn} {id : Nat} {first : Bool}
    (h : ∀ l ∈ c.incomingFrags, l.head.id ∉ c.gone) : ∃ found, getFrag c id first = .ok found := by
  obtain ⟨found, hf⟩ := @findFrag_ok _ id _ h
  unfold getFrag
  cases found with
  | some z => exact ⟨_, by simp [hf, bind, Except.bind]; rfl⟩
  | none =>
    simp only [hf, bind, Except.bind]
    split
    · exact ⟨_, rfl⟩
    · exact ⟨_, rfl⟩

/-- The bytes from `cur` to `end`. -/
def RecvBuffer.remaining (buf : RecvBuffer) : List UInt8 := buf.data.drop buf.cur

theorem copyFrags_eq_ok {c : Conn} {bufs : List RecvBuffer} {copied : List UInt8} :
    copyFrags c bufs = .ok copied ↔
      (∀ buf ∈ bufs, buf.id ∉ c.gone ∧ buf.cur ≤ buf.stop) ∧
      copied = bufs.flatMap RecvBuffer.remaining := by
  induction bufs generalizing copied with
  | nil => simp [copyFrags, eq_comm]
  | cons buf bufs ih =>
    unfold copyFrags Conn.access
    by_cases hg : buf.id ∈ c.gone
    · simp [hg, bind, Except.bind]
    by_cases hl : buf.stop < buf.cur
    · simp [hg, hl, bind, Except.bind]
    have hle : buf.cur ≤ buf.stop := by omega
    cases hr : copyFrags c bufs with
    | error fault =>
      simp only [hg, hl, if_false, bind, Except.bind, List.forall_mem_cons, hle, not_false_eq_true,
        true_and, and_self]
      constructor
      · intro h
        cases h
      · rintro ⟨hb, -⟩
        have h := ih.mpr ⟨hb, rfl⟩
        rw [hr] at h
        cases h
    | ok rest =>
      obtain ⟨hb, rfl⟩ := ih.mp hr
      have hall : ∀ b ∈ buf :: bufs, b.id ∉ c.gone ∧ b.cur ≤ b.stop := by
        rw [List.forall_mem_cons]
        exact ⟨⟨hg, hle⟩, hb⟩
      simp only [hg, hl, if_false, bind, Except.bind, pure, Except.pure, Except.ok.injEq]
      exact ⟨fun h => ⟨hall, h.symm⟩, fun h => h.2.symm⟩

/-- `concat_frags` when it got its block. -/
theorem concatFrags_some {env : Env} {c c' : Conn} {head whole : RecvBuffer}
    {tail : List RecvBuffer} (h : concatFrags env c head tail = .ok (c', some whole)) :
    c' = { c with allocs := c.allocs + 1 } ∧
    (∀ buf ∈ tail, buf.id ∉ c.gone ∧ buf.cur ≤ buf.stop) ∧
    ∃ block, whole = { head with
      block := some block, freeBody := true, leftToRead := 0,
      body := head.body ++ tail.flatMap RecvBuffer.remaining,
      stop := head.stop + (tail.flatMap RecvBuffer.remaining).length } ∧
      ((env.realloc c.allocs = .inPlace ∧ head.block = some block) ∨
        (block = c.allocs ∧ (head.block = none ∨ env.realloc c.allocs = .moved))) := by
  unfold concatFrags at h
  by_cases hf : head.freeBody = false
  · simp [hf] at h
  rw [if_neg hf] at h
  obtain ⟨c1, new, ha⟩ : ∃ c1 new, allocBuffer env c head head.block
      (head.header.messageSize + (head.cur - 12)) = (c1, new) := ⟨_, _, rfl⟩
  rw [ha] at h
  cases new with
  | none => simp [pure, Except.pure] at h
  | some new =>
    have hcopied : ∃ copied, copyFrags { c with allocs := c.allocs + 1 } tail = .ok copied := by
      obtain ⟨rfl, -⟩ := allocBuffer_some ha
      cases hc : copyFrags { c with allocs := c.allocs + 1 } tail with
      | error fault => simp [hc, bind, Except.bind] at h
      | ok copied => exact ⟨copied, rfl⟩
    obtain ⟨rfl, block, rfl, hblock⟩ := allocBuffer_some ha
    obtain ⟨copied, hc⟩ := hcopied
    obtain ⟨hb, rfl⟩ := copyFrags_eq_ok.mp hc
    simp only [hc, bind, Except.bind, pure, Except.pure] at h
    split at h
    · cases h
    · simp only [Except.ok.injEq, Prod.mk.injEq, Option.some.injEq] at h
      obtain ⟨rfl, rfl⟩ := h
      exact ⟨rfl, hb, block, rfl, hblock⟩

theorem concatFrags_none {env : Env} {c c' : Conn} {head : RecvBuffer} {tail : List RecvBuffer}
    (h : concatFrags env c head tail = .ok (c', none)) :
    c' = { c with allocs := c.allocs + 1 } ∧ env.realloc c.allocs = .fail := by
  unfold concatFrags at h
  by_cases hf : head.freeBody = false
  · simp [hf] at h
  rw [if_neg hf] at h
  obtain ⟨c1, new, ha⟩ : ∃ c1 new, allocBuffer env c head head.block
      (head.header.messageSize + (head.cur - 12)) = (c1, new) := ⟨_, _, rfl⟩
  rw [ha] at h
  cases new with
  | none =>
    simp [pure, Except.pure] at h
    rw [← h]
    exact allocBuffer_none ha
  | some new =>
    cases hc : copyFrags c1 tail with
    | error fault => simp [hc, bind, Except.bind] at h
    | ok copied =>
      simp only [hc, bind, Except.bind, pure, Except.pure] at h
      split at h <;> cases h

/-- Everything `giop_recv_buffer_handle_fragmented` can return. -/
inductive FragCase (env : Env) (c : Conn) (buf₀ : RecvBuffer) : Bool × RecvBuffer × Conn → Prop
  | badType : messageId env buf₀ = none → FragCase env c buf₀ (true, buf₀, c)
  | orphan {buf : RecvBuffer} {id : Nat} : messageId env buf₀ = some (buf, id) →
      getFrag c id (buf.header.version = .v1_1) = .ok none →
      buf.header.moreFragments = false → FragCase env c buf₀ (true, buf, c)
  | opened {buf : RecvBuffer} {id : Nat} : messageId env buf₀ = some (buf, id) →
      getFrag c id (buf.header.version = .v1_1) = .ok none →
      buf.header.moreFragments = true →
      FragCase env c buf₀ (false, buf, { c with incomingFrags := ⟨buf, []⟩ :: c.incomingFrags })
  | joined {buf : RecvBuffer} {id : Nat} {before after : List FragList} {frags : FragList} :
      messageId env buf₀ = some (buf, id) →
      getFrag c id (buf.header.version = .v1_1) = .ok (some (before, frags, after)) →
      frags.head.header.messageType ≠ .fragment →
      (c.isAuth = false → buf.header.messageSize ≤ env.limit) →
      buf.header.moreFragments = true →
      FragCase env c buf₀ (false, addLength frags.head buf, { c with
        incomingFrags := before ++ ⟨addLength frags.head buf, frags.tail ++ [buf]⟩ :: after })
  | whole {buf : RecvBuffer} {id : Nat} {before after : List FragList} {frags : FragList}
      {c₁ c₂ : Conn} {new : RecvBuffer} :
      messageId env buf₀ = some (buf, id) →
      getFrag c id (buf.header.version = .v1_1) = .ok (some (before, frags, after)) →
      frags.head.header.messageType ≠ .fragment →
      (c.isAuth = false → buf.header.messageSize ≤ env.limit) →
      buf.header.moreFragments = false → buf.header.messageType = .fragment →
      concatFrags env c (addLength frags.head buf) (frags.tail ++ [buf]) = .ok (c₁, some new) →
      c₁.unuseAll (frags.tail ++ [buf]) = .ok c₂ →
      FragCase env c buf₀ (false, new, { c₂ with incomingFrags := before ++ after })
  | noMemory {buf : RecvBuffer} {id : Nat} {before after : List FragList} {frags : FragList}
      {c₁ c₂ : Conn} :
      messageId env buf₀ = some (buf, id) →
      getFrag c id (buf.header.version = .v1_1) = .ok (some (before, frags, after)) →
      frags.head.header.messageType ≠ .fragment →
      (c.isAuth = false → buf.header.messageSize ≤ env.limit) →
      buf.header.moreFragments = false → buf.header.messageType = .fragment →
      concatFrags env c (addLength frags.head buf) (frags.tail ++ [buf]) = .ok (c₁, none) →
      c₁.unuseAll (frags.tail ++ [buf]) = .ok c₂ →
      FragCase env c buf₀ (true, addLength frags.head buf, { c₂ with
        incomingFrags := before ++ after })

theorem handleFragmented_cases {env : Env} {c : Conn} {buf₀ : RecvBuffer}
    {r : Bool × RecvBuffer × Conn} (h : handleFragmented env c buf₀ = .ok r) :
    FragCase env c buf₀ r := by
  unfold handleFragmented at h
  cases hm : messageId env buf₀ with
  | none =>
    simp only [hm, Except.ok.injEq] at h
    exact h ▸ .badType hm
  | some p =>
    obtain ⟨buf, id⟩ := p
    simp only [hm] at h
    cases hg : getFrag c id (buf.header.version = .v1_1) with
    | error fault => simp [hg, bind, Except.bind] at h
    | ok found =>
      simp only [hg, bind, Except.bind] at h
      cases found with
      | none =>
        cases hmore : buf.header.moreFragments with
        | false =>
          simp [hmore, pure, Except.pure] at h
          exact h ▸ .orphan hm hg hmore
        | true =>
          simp [hmore, pure, Except.pure] at h
          exact h ▸ .opened hm hg hmore
      | some z =>
        obtain ⟨before, frags, after⟩ := z
        simp only [Conn.access] at h
        by_cases hgone : frags.head.id ∈ c.gone
        · simp [hgone] at h
        by_cases htype : frags.head.header.messageType = .fragment
        · simp [hgone, htype] at h
        by_cases hlimit : c.isAuth = false ∧ env.limit < buf.header.messageSize
        · simp [hgone, htype, hlimit] at h
        have hl : c.isAuth = false → buf.header.messageSize ≤ env.limit := by
          intro ha
          have := not_and.mp hlimit ha
          omega
        simp only [hgone, htype, hlimit, if_false] at h
        cases hmore : buf.header.moreFragments with
        | true =>
          simp [hmore, pure, Except.pure] at h
          exact h ▸ .joined hm hg htype hl hmore
        | false =>
          by_cases hfrag : buf.header.messageType ≠ .fragment
          · simp [hmore, hfrag] at h
          simp only [hmore, Bool.false_eq_true, if_false, hfrag] at h
          cases hc : concatFrags env c (addLength frags.head buf) (frags.tail ++ [buf]) with
          | error fault => simp [hc] at h
          | ok p =>
            obtain ⟨c₁, new⟩ := p
            simp only [hc] at h
            cases hu : c₁.unuseAll (frags.tail ++ [buf]) with
            | error fault => simp [hu] at h
            | ok c₂ =>
              have hfrag : buf.header.messageType = .fragment := by simpa using hfrag
              cases new with
              | none =>
                simp [hu, pure, Except.pure] at h
                exact h ▸ .noMemory hm hg htype hl hmore hfrag hc hu
              | some new =>
                simp [hu, pure, Except.pure] at h
                exact h ▸ .whole hm hg htype hl hmore hfrag hc hu

/-- The kinds that a handler outside this file receives. -/
def MsgType.handedOver : MsgType → Bool
  | .reply | .locateReply | .request | .locateRequest => true
  | .cancelRequest | .closeConnection | .messageError | .fragment => false

def MsgType.isReply : MsgType → Bool
  | .reply | .locateReply => true
  | _ => false

/-- The connection behind the last `switch`. -/
def Conn.afterDispatch (env : Env) (c : Conn) (buf : RecvBuffer) : Conn :=
  let t := buf.header.messageType
  { c with
    incomingMsg := none
    gone := buf.id :: c.gone
    dispatched := if t.handedOver then c.dispatched ++ [buf] else c.dispatched
    status := if t = .closeConnection ∨ t = .fragment ∨
        (t.isReply = true ∧ env.replyBad (c.dispatched ++ [buf]) = true) then .disconnected
      else c.status }

theorem dispatch_eq (env : Env) (c : Conn) (buf : RecvBuffer) :
    dispatch env c buf = if buf.id ∈ c.gone then .error .useAfterFree
      else .ok (c.afterDispatch env buf) := by
  unfold dispatch Conn.access Conn.afterDispatch
  by_cases hg : buf.id ∈ c.gone
  · simp [hg, bind, Except.bind]
  cases hm : buf.header.messageType
  case reply | locateReply =>
    by_cases hb : env.replyBad (c.dispatched ++ [buf]) = true
    · simp [hg, hb, bind, Except.bind, Conn.disconnect, MsgType.handedOver, MsgType.isReply]
    · simp [hg, hb, bind, Except.bind, pure, Except.pure, MsgType.handedOver, MsgType.isReply]
  all_goals
    simp [hg, bind, Except.bind, pure, Except.pure, Conn.unuse, Conn.disconnect,
      Conn.msgError_eq, MsgType.handedOver, MsgType.isReply]

theorem dispatch_eq_ok {env : Env} {c c' : Conn} {buf : RecvBuffer} :
    dispatch env c buf = .ok c' ↔ buf.id ∉ c.gone ∧ c' = c.afterDispatch env buf := by
  rw [dispatch_eq]
  by_cases h : buf.id ∈ c.gone
  · simp [h]
  · simp [h, eq_comm]

/-- A complete body, as `giop_recv_buffer_demarshal` is given it. -/
def RecvBuffer.readied (buf : RecvBuffer) : RecvBuffer := { buf with cur := 12, state := .ready }

/-- Everything that can happen when a body is complete. -/
inductive BodyCase (env : Env) (c : Conn) (buf : RecvBuffer) : Conn → Prop
  | refused {buf' : RecvBuffer} {c' : Conn} : buf'.id = buf.id →
      (buf.stop < 12 + buf.header.messageSize ∨ buf.readied.demarshal env.host = .error .fail) →
      c.msgError buf' = .ok c' → BodyCase env c buf c'
  | plain {buf₁ : RecvBuffer} {c' : Conn} : 12 + buf.header.messageSize ≤ buf.stop →
      buf.readied.demarshal env.host = .ok buf₁ →
      buf₁.header.moreFragments = false → buf₁.header.messageType ≠ .fragment →
      dispatch env c buf₁ = .ok c' → BodyCase env c buf c'
  | fragError {buf₁ buf₂ : RecvBuffer} {c₁ c' : Conn} :
      12 + buf.header.messageSize ≤ buf.stop → buf.readied.demarshal env.host = .ok buf₁ →
      (buf₁.header.moreFragments = true ∨ buf₁.header.messageType = .fragment) →
      FragCase env c buf₁ (true, buf₂, c₁) → c₁.msgError buf₂ = .ok c' → BodyCase env c buf c'
  | held {buf₁ buf₂ : RecvBuffer} {c₁ : Conn} :
      12 + buf.header.messageSize ≤ buf.stop → buf.readied.demarshal env.host = .ok buf₁ →
      buf₁.header.moreFragments = true → FragCase env c buf₁ (false, buf₂, c₁) →
      BodyCase env c buf { c₁ with incomingMsg := none }
  | reassembled {buf₁ buf₂ : RecvBuffer} {c₁ c' : Conn} :
      12 + buf.header.messageSize ≤ buf.stop → buf.readied.demarshal env.host = .ok buf₁ →
      buf₁.header.moreFragments = false → buf₁.header.messageType = .fragment →
      FragCase env c buf₁ (false, buf₂, c₁) → dispatch env c₁ buf₂ = .ok c' →
      BodyCase env c buf c'

theorem finishBody_cases {env : Env} {c c' : Conn} {buf : RecvBuffer}
    (h : finishBody env c buf = .ok c') : BodyCase env c buf c' := by
  unfold finishBody at h
  by_cases hstop : buf.stop < 12 + buf.header.messageSize
  · simp only [hstop, if_true] at h
    exact .refused rfl (.inl hstop) h
  have hle : 12 + buf.header.messageSize ≤ buf.stop := by omega
  simp only [hstop, if_false] at h
  have hr : ({ buf with cur := 12, state := .ready } : RecvBuffer) = buf.readied := rfl
  rw [hr] at h
  cases hd : buf.readied.demarshal env.host with
  | error e =>
    cases e with
    | undefined => simp [hd] at h
    | fail =>
      simp only [hd] at h
      exact .refused rfl (.inr hd) h
  | ok buf₁ =>
    simp only [hd] at h
    cases hmore : buf₁.header.moreFragments with
    | true =>
      simp only [hmore, if_true] at h
      cases hf : handleFragmented env c buf₁ with
      | error fault => simp [hf, bind, Except.bind] at h
      | ok r =>
        obtain ⟨error, buf₂, c₁⟩ := r
        have hcase := handleFragmented_cases hf
        simp only [hf, bind, Except.bind] at h
        cases error with
        | true => exact .fragError hle hd (.inl hmore) hcase (by simpa using h)
        | false =>
          simp [pure, Except.pure] at h
          exact h ▸ .held hle hd hmore hcase
    | false =>
      simp only [hmore, Bool.false_eq_true, if_false] at h
      by_cases hfrag : buf₁.header.messageType = .fragment
      · simp only [hfrag, if_true] at h
        cases hf : handleFragmented env c buf₁ with
        | error fault => simp [hf, bind, Except.bind] at h
        | ok r =>
          obtain ⟨error, buf₂, c₁⟩ := r
          have hcase := handleFragmented_cases hf
          simp only [hf, bind, Except.bind] at h
          cases error with
          | true => exact .fragError hle hd (.inr hfrag) hcase (by simpa using h)
          | false => exact .reassembled hle hd hmore hfrag hcase (by simpa using h)
      · simp only [hfrag, if_false] at h
        exact .plain hle hd hmore hfrag h

/-- A buffer whose header was accepted, set up for its body. -/
def RecvBuffer.opened (buf : RecvBuffer) (header : MsgHeader) (block : Nat) : RecvBuffer :=
  { buf with
    header := header, block := some block, freeBody := true, cur := 12,
    stop := 12 + header.messageSize, leftToRead := header.messageSize, state := .readingBody }

/-- Everything that can happen when a header is complete. -/
inductive HeaderCase (env : Env) (c : Conn) (buf : RecvBuffer) : Conn × Bool → Prop
  | refused {c₁ c' : Conn} : (c₁ = c ∨ c₁ = { c with allocs := c.allocs + 1 }) →
      c₁.msgError buf = .ok c' → HeaderCase env c buf (c', false)
  | reading {header : MsgHeader} : parseHeader env.host buf.rawHeader = some header →
      (c.isAuth = false → header.messageSize ≤ env.limit) → 0 < header.messageSize →
      HeaderCase env c buf ({ c with
        allocs := c.allocs + 1, incomingMsg := some (buf.opened header c.allocs) }, true)
  | empty {header : MsgHeader} {c' : Conn} : parseHeader env.host buf.rawHeader = some header →
      header.messageSize = 0 →
      dispatch env { c with allocs := c.allocs + 1 } (buf.opened header c.allocs) = .ok c' →
      HeaderCase env c buf (c', false)

theorem finishHeader_cases {env : Env} {c : Conn} {buf : RecvBuffer} {r : Conn × Bool}
    (h : finishHeader env c buf = .ok r) : HeaderCase env c buf r := by
  unfold finishHeader recvMsgReadingBody at h
  have herr : ∀ c₁ : Conn, (c₁ = c ∨ c₁ = { c with allocs := c.allocs + 1 }) →
      (c₁.msgError buf >>= fun c => pure (c, false)) = .ok r → HeaderCase env c buf r := by
    intro c₁ hc h
    cases hm : c₁.msgError buf with
    | error fault => simp [hm, bind, Except.bind] at h
    | ok c' =>
      simp [hm, bind, Except.bind, pure, Except.pure] at h
      exact h ▸ .refused hc hm
  cases hp : parseHeader env.host buf.rawHeader with
  | none =>
    simp only [hp] at h
    exact herr c (.inl rfl) h
  | some header =>
    simp only [hp] at h
    by_cases hlimit : c.isAuth = false ∧ env.limit < header.messageSize
    · simp only [hlimit, and_self, if_true] at h
      exact herr c (.inl rfl) h
    have hl : c.isAuth = false → header.messageSize ≤ env.limit := by
      intro ha
      have := not_and.mp hlimit ha
      omega
    simp only [hlimit, if_false] at h
    obtain ⟨c₁, new, ha⟩ : ∃ c₁ new, allocBuffer env c { buf with header := header } none
        header.messageSize = (c₁, new) := ⟨_, _, rfl⟩
    rw [ha] at h
    cases new with
    | none => exact herr c₁ (.inr (allocBuffer_none ha).1) h
    | some new =>
      obtain ⟨rfl, block, rfl, hblock⟩ := allocBuffer_some ha
      have hb : block = c.allocs := by simpa using hblock
      subst hb
      simp only at h
      by_cases hpos : 0 < header.messageSize
      · simp only [hpos, if_true, Except.ok.injEq] at h
        exact h ▸ .reading hp hl hpos
      · simp only [hpos, if_false] at h
        cases hd : dispatch env { c with allocs := c.allocs + 1 } (buf.opened header c.allocs) with
        | error fault =>
          simp only [RecvBuffer.opened] at hd
          simp [hd, bind, Except.bind] at h
        | ok c' =>
          have hd' := hd
          simp only [RecvBuffer.opened] at hd'
          simp [hd', bind, Except.bind, pure, Except.pure] at h
          exact h ▸ .empty hp (by omega) hd

/-- The message whose last byte this read brings, decoded. -/
def completed (env : Env) (c : Conn) : ReadResult → Option RecvBuffer
  | .data bytes =>
      let buf := c.takeBuf.2
      if c.dead = false ∧ bytes ≠ [] ∧ bytes.length = buf.leftToRead ∧ buf.state = .readingBody then
        ((buf.store bytes).readied.demarshal env.host).toOption
      else none
  | .wouldBlock => none
  | .fatal => none

theorem completed_eq {env : Env} {c : Conn} {bytes : List UInt8} {buf₁ : RecvBuffer}
    (hdead : c.dead = false) (hne : bytes ≠ []) (hlen : bytes.length = c.takeBuf.2.leftToRead)
    (hstate : c.takeBuf.2.state = .readingBody)
    (h : (c.takeBuf.2.store bytes).readied.demarshal env.host = .ok buf₁) :
    completed env c (.data bytes) = some buf₁ := by
  simp only [completed, hdead, hne, hlen, hstate, h, ne_eq, not_false_eq_true, and_self,
    if_true, Except.toOption]

theorem completed_some {env : Env} {c : Conn} {r : ReadResult} {buf₁ : RecvBuffer}
    (h : completed env c r = some buf₁) : ∃ bytes, r = .data bytes ∧
      bytes.length = c.takeBuf.2.leftToRead ∧ c.takeBuf.2.state = .readingBody ∧
      (c.takeBuf.2.store bytes).readied.demarshal env.host = .ok buf₁ := by
  cases r with
  | wouldBlock => cases h
  | fatal => cases h
  | data bytes =>
    simp only [completed] at h
    split at h
    · rename_i hc
      obtain ⟨-, -, hlen, hs⟩ := hc
      cases hd : (c.takeBuf.2.store bytes).readied.demarshal env.host with
      | error e => simp [hd, Except.toOption] at h
      | ok buf =>
        simp only [hd, Except.toOption, Option.some.injEq] at h
        exact ⟨bytes, rfl, hlen, hs, by rw [← h]; exact hd⟩
    · cases h

theorem completed_eq_none {env : Env} {c : Conn} {bytes : List UInt8}
    (h : bytes ≠ [] → bytes.length = c.takeBuf.2.leftToRead →
      c.takeBuf.2.state = .readingBody → False) : completed env c (.data bytes) = none := by
  simp only [completed]
  split
  · rename_i hc
    exact absurd hc.2.2.2 (h hc.2.1 hc.2.2.1)
  · rfl

theorem completed_waits {env : Env} {c : Conn} {r : ReadResult}
    (h : ∀ bytes, r = .data bytes → bytes = [] ∨ c.takeBuf.2.leftToRead < bytes.length) :
    completed env c r = none := by
  cases r with
  | wouldBlock => rfl
  | fatal => rfl
  | data bytes =>
    refine completed_eq_none fun hne hlen _ => ?_
    rcases h bytes rfl with he | hlt
    · exact hne he
    · omega

/-- The messages that go through `giop_recv_buffer_handle_fragmented`. -/
def RecvBuffer.fragmented (buf : RecvBuffer) : Bool :=
  buf.header.moreFragments || buf.header.messageType = .fragment

@[simp] theorem RecvBuffer.store_leftToRead (buf : RecvBuffer) (bytes : List UInt8) :
    (buf.store bytes).leftToRead = buf.leftToRead - bytes.length := by
  unfold RecvBuffer.store
  cases buf.state <;> rfl

@[simp] theorem RecvBuffer.store_state (buf : RecvBuffer) (bytes : List UInt8) :
    (buf.store bytes).state = buf.state := by
  unfold RecvBuffer.store
  cases h : buf.state <;> rfl

@[simp] theorem RecvBuffer.store_id (buf : RecvBuffer) (bytes : List UInt8) :
    (buf.store bytes).id = buf.id := by
  unfold RecvBuffer.store
  cases buf.state <;> rfl

/-- Demarshalling sets the decoded fields and moves `cur`. -/
theorem RecvBuffer.demarshal_frame {host : Endian} {buf buf₁ : RecvBuffer}
    (h : buf.demarshal host = .ok buf₁) :
    ∃ u block cur, buf₁ = { buf with decoded := u, decodedIn := block, cur := cur } := by
  unfold RecvBuffer.demarshal at h
  cases hd : decodeFunc buf.header.messageType buf.header.version with
  | none =>
    simp only [hd, Except.ok.injEq] at h
    exact ⟨_, _, _, h.symm⟩
  | some decode =>
    simp only [hd] at h
    cases hr : decode (buf.cursor host) with
    | error e => simp [hr] at h
    | ok p =>
      obtain ⟨u, cursor⟩ := p
      simp only [hr, Except.ok.injEq] at h
      exact ⟨_, _, _, h.symm⟩

theorem RecvBuffer.demarshal_id {host : Endian} {buf buf₁ : RecvBuffer}
    (h : buf.demarshal host = .ok buf₁) : buf₁.id = buf.id := by
  obtain ⟨u, block, cur, rfl⟩ := RecvBuffer.demarshal_frame h
  rfl

/-- Every way a read can end the process. -/
inductive FaultCase (env : Env) (c : Conn) (r : ReadResult) : Fault → Prop
  | tooLong : 2^31 ≤ c.takeBuf.2.leftToRead → FaultCase env c r .readAssertion
  | badState : c.takeBuf.2.state ≠ .readingHeader → c.takeBuf.2.state ≠ .readingBody →
      FaultCase env c r .assertion
  | freed {fault : Fault} : c.takeBuf.2.id ∈ c.takeBuf.1.gone → FaultCase env c r fault
  | undefined {bytes : List UInt8} : r = .data bytes →
      (c.takeBuf.2.store bytes).readied.demarshal env.host = .error .undefined →
      FaultCase env c r .undefined
  | lists {buf₁ : RecvBuffer} {fault : Fault} : completed env c r = some buf₁ →
      buf₁.fragmented = true → handleFragmented env c.takeBuf.1 buf₁ = .error fault →
      FaultCase env c r fault
  | behindLists {buf₁ buf₂ : RecvBuffer} {error : Bool} {c₁ : Conn} {fault : Fault} :
      completed env c r = some buf₁ → buf₁.fragmented = true →
      FragCase env c.takeBuf.1 buf₁ (error, buf₂, c₁) →
      (error = true ∨ buf₁.header.moreFragments = false) → buf₂.id ∈ c₁.gone →
      FaultCase env c r fault

theorem Conn.msgError_error {c : Conn} {buf : RecvBuffer} {fault : Fault}
    (h : c.msgError buf = .error fault) : buf.id ∈ c.gone := by
  rw [Conn.msgError_eq] at h
  by_contra hg
  simp [hg] at h

theorem dispatch_error {env : Env} {c : Conn} {buf : RecvBuffer} {fault : Fault}
    (h : dispatch env c buf = .error fault) : buf.id ∈ c.gone := by
  rw [dispatch_eq] at h
  by_contra hg
  simp [hg] at h

theorem finishHeader_error {env : Env} {c : Conn} {buf : RecvBuffer} {fault : Fault}
    (h : finishHeader env c buf = .error fault) : buf.id ∈ c.gone := by
  unfold finishHeader recvMsgReadingBody at h
  have herr : ∀ c₁ : Conn, c₁.gone = c.gone →
      (c₁.msgError buf >>= fun c => pure (c, false)) = (.error fault : Except Fault (Conn × Bool)) →
      buf.id ∈ c.gone := by
    intro c₁ hc h
    cases hm : c₁.msgError buf with
    | error fault => exact hc ▸ Conn.msgError_error hm
    | ok c' => simp [hm, bind, Except.bind, pure, Except.pure] at h
  cases hp : parseHeader env.host buf.rawHeader with
  | none =>
    simp only [hp] at h
    exact herr c rfl h
  | some header =>
    simp only [hp] at h
    by_cases hlimit : c.isAuth = false ∧ env.limit < header.messageSize
    · simp only [hlimit, and_self, if_true] at h
      exact herr c rfl h
    simp only [hlimit, if_false] at h
    obtain ⟨c₁, new, ha⟩ : ∃ c₁ new, allocBuffer env c { buf with header := header } none
        header.messageSize = (c₁, new) := ⟨_, _, rfl⟩
    rw [ha] at h
    cases new with
    | none =>
      have hc := (allocBuffer_none ha).1
      exact herr c₁ (by rw [hc]) h
    | some new =>
      obtain ⟨rfl, block, rfl, -⟩ := allocBuffer_some ha
      simp only at h
      by_cases hpos : 0 < header.messageSize
      · simp [hpos] at h
      · simp only [hpos, if_false] at h
        generalize hb : RecvBuffer.mk _ _ _ _ _ _ _ _ _ _ _ _ = buf' at h
        have hid : buf'.id = buf.id := by rw [← hb]
        cases hd : dispatch env { c with allocs := c.allocs + 1 } buf' with
        | error fault => exact hid ▸ dispatch_error (c := { c with allocs := c.allocs + 1 }) hd
        | ok c' => simp [hd, bind, Except.bind, pure, Except.pure] at h

theorem finishBody_error {env : Env} {c : Conn} {bytes : List UInt8} {fault : Fault}
    (hdead : c.dead = false) (hne : bytes ≠ []) (hlen : bytes.length = c.takeBuf.2.leftToRead)
    (hstate : c.takeBuf.2.state = .readingBody)
    (h : finishBody env c.takeBuf.1 (c.takeBuf.2.store bytes) = .error fault) :
    FaultCase env c (.data bytes) fault := by
  unfold finishBody at h
  by_cases hstop : (c.takeBuf.2.store bytes).stop <
      12 + (c.takeBuf.2.store bytes).header.messageSize
  · simp only [hstop, if_true] at h
    have hg := Conn.msgError_error h
    rw [show ({ c.takeBuf.2.store bytes with cur := 12 } : RecvBuffer).id = c.takeBuf.2.id from
      RecvBuffer.store_id _ _] at hg
    exact .freed hg
  simp only [hstop, if_false] at h
  have hr : ({ c.takeBuf.2.store bytes with cur := 12, state := .ready } : RecvBuffer) =
      (c.takeBuf.2.store bytes).readied := rfl
  rw [hr] at h
  have hid : (c.takeBuf.2.store bytes).readied.id = c.takeBuf.2.id := RecvBuffer.store_id _ _
  cases hd : (c.takeBuf.2.store bytes).readied.demarshal env.host with
  | error e =>
    cases e with
    | undefined =>
      simp only [hd, Except.error.injEq] at h
      exact h ▸ .undefined rfl hd
    | fail =>
      simp only [hd] at h
      exact .freed (hid ▸ Conn.msgError_error h)
  | ok buf₁ =>
    have hcomp := completed_eq hdead hne hlen hstate hd
    have hid₁ : buf₁.id = c.takeBuf.2.id := (RecvBuffer.demarshal_id hd).trans hid
    simp only [hd] at h
    have hfrag : ∀ (k : Bool × RecvBuffer × Conn → Except Fault Conn),
        buf₁.fragmented = true →
        (∀ e buf₂ c₁ fault, k (e, buf₂, c₁) = .error fault →
          (e = true ∨ buf₁.header.moreFragments = false) ∧ buf₂.id ∈ c₁.gone) →
        (handleFragmented env c.takeBuf.1 buf₁ >>= k) = .error fault →
        FaultCase env c (.data bytes) fault := by
      intro k hb hk he
      cases hf : handleFragmented env c.takeBuf.1 buf₁ with
      | error fault' =>
        simp only [hf, bind, Except.bind, Except.error.injEq] at he
        exact .lists hcomp hb (he ▸ hf)
      | ok p =>
        obtain ⟨error, buf₂, c₁⟩ := p
        simp only [hf, bind, Except.bind] at he
        obtain ⟨hheld, hg⟩ := hk _ _ _ _ he
        exact .behindLists hcomp hb (handleFragmented_cases hf) hheld hg
    cases hmore : buf₁.header.moreFragments with
    | true =>
      simp only [hmore, if_true] at h
      refine hfrag _ (by simp [RecvBuffer.fragmented, hmore]) ?_ h
      intro e buf₂ c₁ fault he
      cases e with
      | true => exact ⟨.inl rfl, Conn.msgError_error (by simpa using he)⟩
      | false => simp [pure, Except.pure] at he
    | false =>
      simp only [hmore, Bool.false_eq_true, if_false] at h
      by_cases htype : buf₁.header.messageType = .fragment
      · simp only [htype, if_true] at h
        refine hfrag _ (by simp [RecvBuffer.fragmented, htype]) ?_ h
        intro e buf₂ c₁ fault he
        cases e with
        | true => exact ⟨.inl rfl, Conn.msgError_error (by simpa using he)⟩
        | false => exact ⟨.inr hmore, dispatch_error (by simpa using he)⟩
      · simp only [htype, if_false] at h
        exact .freed (hid₁ ▸ dispatch_error h)

/-- Everything a read can do. -/
inductive RoundCase (env : Env) (c : Conn) : ReadResult → Conn → Prop
  | dead {r : ReadResult} : c.dead = true → RoundCase env c r c
  | waits {r : ReadResult} : c.dead = false →
      (∀ bytes, r = .data bytes → bytes = [] ∨ c.takeBuf.2.leftToRead < bytes.length) →
      RoundCase env c r { c.takeBuf.1 with incomingMsg := some c.takeBuf.2 }
  | stored {bytes : List UInt8} : c.dead = false → bytes.length < c.takeBuf.2.leftToRead →
      RoundCase env c (.data bytes)
        { c.takeBuf.1 with incomingMsg := some (c.takeBuf.2.store bytes) }
  | hungUp {c' : Conn} : c.dead = false → c.takeBuf.1.msgError c.takeBuf.2 = .ok c' →
      RoundCase env c .fatal c'
  | header {bytes : List UInt8} {c' : Conn} {again : Bool} : c.dead = false → bytes ≠ [] →
      bytes.length = c.takeBuf.2.leftToRead → c.takeBuf.2.state = .readingHeader →
      HeaderCase env c.takeBuf.1 (c.takeBuf.2.store bytes) (c', again) →
      RoundCase env c (.data bytes) c'
  | body {bytes : List UInt8} {c' : Conn} : c.dead = false → bytes ≠ [] →
      bytes.length = c.takeBuf.2.leftToRead → c.takeBuf.2.state = .readingBody →
      BodyCase env c.takeBuf.1 (c.takeBuf.2.store bytes) c' → RoundCase env c (.data bytes) c'
  | faulted {r : ReadResult} {fault : Fault} : c.dead = false → FaultCase env c r fault →
      RoundCase env c r { c.takeBuf.1 with fault := some fault }

theorem round_cases (env : Env) (c : Conn) (r : ReadResult) : RoundCase env c r (round env c r) := by
  unfold round
  cases hd : c.dead with
  | true => exact .dead hd
  | false =>
    simp only [Bool.false_eq_true, if_false]
    cases r with
    | wouldBlock => exact .waits hd (by simp)
    | fatal =>
      unfold roundOn
      cases hm : c.takeBuf.1.msgError c.takeBuf.2 with
      | error fault =>
        simp only [handleRead, hm, bind, Except.bind, Conn.record]
        exact .faulted hd (.freed (Conn.msgError_error hm))
      | ok c' =>
        simp only [handleRead, hm, bind, Except.bind, pure, Except.pure, Conn.record]
        exact .hungUp hd hm
    | data bytes =>
      unfold roundOn
      by_cases hb : bytes = [] ∨ c.takeBuf.2.leftToRead < bytes.length
      · simp only [if_pos hb]
        refine .waits hd ?_
        rintro _ ⟨⟩
        exact hb
      by_cases hi : 2^31 ≤ c.takeBuf.2.leftToRead
      · simp only [if_neg hb, if_pos hi]
        exact .faulted hd (.tooLong hi)
      simp only [if_neg hb, if_neg hi]
      have hne : bytes ≠ [] := fun he => hb (.inl he)
      have hle : bytes.length ≤ c.takeBuf.2.leftToRead := by
        by_contra hlt
        exact hb (.inr (by omega))
      unfold handleRead
      by_cases hl : (c.takeBuf.2.store bytes).leftToRead = 0
      · have hlen : bytes.length = c.takeBuf.2.leftToRead := by
          rw [RecvBuffer.store_leftToRead] at hl
          omega
        simp only [hl, if_true]
        cases hs : c.takeBuf.2.state with
        | readingHeader =>
          simp only [RecvBuffer.store_state, hs]
          cases hf : finishHeader env c.takeBuf.1 (c.takeBuf.2.store bytes) with
          | error fault =>
            have hg := finishHeader_error hf
            rw [RecvBuffer.store_id] at hg
            exact .faulted hd (.freed hg)
          | ok p => exact .header hd hne hlen hs (finishHeader_cases hf)
        | readingBody =>
          simp only [RecvBuffer.store_state, hs]
          cases hf : finishBody env c.takeBuf.1 (c.takeBuf.2.store bytes) with
          | error fault => exact .faulted hd (finishBody_error hd hne hlen hs hf)
          | ok c' => exact .body hd hne hlen hs (finishBody_cases hf)
        | awaitingFragments =>
          simp only [RecvBuffer.store_state, hs]
          exact .faulted hd (.badState (by simp [hs]) (by simp [hs]))
        | ready =>
          simp only [RecvBuffer.store_state, hs]
          exact .faulted hd (.badState (by simp [hs]) (by simp [hs]))
      · simp only [if_neg hl]
        rw [RecvBuffer.store_leftToRead] at hl
        exact .stored hd (by omega)

end ORBit2
