import ORBit2.FragmentTable

/-! What one read does to the fragment lists and to the messages handed out, whatever
else it changes. The results about messages are derived from this. -/

set_option autoImplicit false

namespace ORBit2
open Words Runs

/-- The list a message with this id joins, and the lists in front of it. -/
structure Conn.Joins (c : Conn) (buf : RecvBuffer) (id : Nat) (before : List FragList)
    (l : FragList) (after : List FragList) : Prop where
  lists : c.incomingFrags = before ++ l :: after
  found : (l.head.requestId = id ∧ ∀ x ∈ before, x.head.requestId ≠ id) ∨
    (buf.header.version = .v1_1 ∧ before = [] ∧ ∀ x ∈ c.incomingFrags, x.head.requestId ≠ id)
  head : l.head.header.messageType ≠ .fragment

/-- The message that `concat_frags` makes of a head and the buffers behind it. -/
def RecvBuffer.concat (head : RecvBuffer) (tail : List RecvBuffer) (block : Nat) : RecvBuffer :=
  { head with
    block := some block, freeBody := true, leftToRead := 0,
    body := head.body ++ tail.flatMap RecvBuffer.remaining,
    stop := head.stop + (tail.flatMap RecvBuffer.remaining).length }

/-- The body bytes a list holds, as `concat_frags` would join them. -/
def FragList.held (l : FragList) : List UInt8 := l.head.body ++ l.tail.flatMap RecvBuffer.remaining

/-- The list a message joins, if one is open for it. -/
def Conn.listFor (c : Conn) (buf : RecvBuffer) (id : Nat) : Option FragList :=
  match c.incomingFrags.find? (·.head.requestId = id) with
  | some l => some l
  | none => if buf.header.version = .v1_1 then c.incomingFrags.head? else none

inductive Effect (env : Env) (c : Conn) (r : ReadResult) (c' : Conn) : Prop
  | quiet : c'.incomingFrags = c.incomingFrags → c'.dispatched = c.dispatched →
      (completed env c r = none ∨ c'.dead = true ∨ ∃ buf, completed env c r = some buf ∧
        buf.fragmented = false ∧ buf.header.messageType.handedOver = false) → Effect env c r c'
  | empty {bytes : List UInt8} {header : MsgHeader} {block : Nat} : r = .data bytes →
      bytes.length = c.takeBuf.2.leftToRead → c.takeBuf.2.state = .readingHeader →
      parseHeader env.host (c.takeBuf.2.store bytes).rawHeader = some header →
      header.messageSize = 0 → header.messageType.handedOver = true →
      c'.incomingFrags = c.incomingFrags →
      c'.dispatched = c.dispatched ++ [(c.takeBuf.2.store bytes).opened header block] →
      Effect env c r c'
  | plain {buf : RecvBuffer} : completed env c r = some buf → buf.fragmented = false →
      buf.header.messageType.handedOver = true → c'.incomingFrags = c.incomingFrags →
      c'.dispatched = c.dispatched ++ [buf] → Effect env c r c'
  | opened {buf buf' : RecvBuffer} {id : Nat} : completed env c r = some buf →
      messageId env buf = some (buf', id) → ¬ c.Pending buf id →
      buf.header.moreFragments = true → c'.incomingFrags = ⟨buf', []⟩ :: c.incomingFrags →
      c'.dispatched = c.dispatched → Effect env c r c'
  | joined {buf buf' : RecvBuffer} {id : Nat} {before after : List FragList} {l : FragList} :
      completed env c r = some buf → messageId env buf = some (buf', id) →
      c.Joins buf id before l after → buf.header.moreFragments = true →
      c'.incomingFrags = before ++ ⟨addLength l.head buf', l.tail ++ [buf']⟩ :: after →
      c'.dispatched = c.dispatched → Effect env c r c'
  | whole {buf buf' : RecvBuffer} {id : Nat} {before after : List FragList} {l : FragList}
      {block : Nat} : completed env c r = some buf → messageId env buf = some (buf', id) →
      c.Joins buf id before l after → buf.header.moreFragments = false →
      buf.header.messageType = .fragment → (∀ b ∈ l.tail ++ [buf'], b.cur ≤ b.stop) →
      ((env.realloc c.allocs = .inPlace ∧ l.head.block = some block) ∨
        (block = c.allocs ∧ (l.head.block = none ∨ env.realloc c.allocs = .moved))) →
      l.head.header.messageType.handedOver = true → c'.incomingFrags = before ++ after →
      c'.dispatched =
        c.dispatched ++ [(addLength l.head buf').concat (l.tail ++ [buf']) block] →
      Effect env c r c'
  | dropped {buf buf' : RecvBuffer} {id : Nat} {before after : List FragList} {l : FragList} :
      completed env c r = some buf → messageId env buf = some (buf', id) →
      c.Joins buf id before l after → buf.header.moreFragments = false →
      buf.header.messageType = .fragment →
      c'.incomingFrags = before ++ after → c'.dispatched = c.dispatched →
      (c'.dead = true ∨ l.head.header.messageType.handedOver = false) → Effect env c r c'

section
variable {env : Env} {c c' c₁ : Conn} {buf buf' buf₁ buf₂ : RecvBuffer} {id : Nat} {r : ReadResult}

@[simp] theorem Conn.takeBuf_dispatched (c : Conn) : c.takeBuf.1.dispatched = c.dispatched := by
  unfold Conn.takeBuf
  cases c.incomingMsg <;> rfl

@[simp] theorem Conn.takeBuf_allocs (c : Conn) : c.takeBuf.1.allocs = c.allocs := by
  unfold Conn.takeBuf
  cases c.incomingMsg <;> rfl

theorem getFrag_not_pending {version : Version} (hv : buf.header.version = version)
    (h : getFrag c id (version = .v1_1) = .ok none) : ¬ c.Pending buf id := by
  obtain ⟨hnone, hfirst⟩ := getFrag_none h
  rintro (⟨l, hl, he⟩ | ⟨hv', hne⟩)
  · exact hnone l hl he
  · exact hne (hfirst (by simp [← hv, hv']))

theorem getFrag_joins {version : Version} {before after : List FragList} {l : FragList}
    (hv : buf.header.version = version) (ht : l.head.header.messageType ≠ .fragment)
    (h : getFrag c id (version = .v1_1) = .ok (some (before, l, after))) :
    c.Joins buf id before l after := by
  obtain ⟨hl, hfound | ⟨hfirst, hb, hnone⟩⟩ := getFrag_some h
  · exact ⟨hl, .inl hfound, ht⟩
  · exact ⟨hl, .inr ⟨by simpa [hv] using hfirst, hb, hnone⟩, ht⟩

theorem Conn.Joins.of_takeBuf {before after : List FragList} {l : FragList}
    (h : c.takeBuf.1.Joins buf id before l after) : c.Joins buf id before l after :=
  ⟨by simpa using h.lists, by simpa using h.found, h.head⟩

theorem Conn.not_pending_takeBuf (h : ¬ c.takeBuf.1.Pending buf id) : ¬ c.Pending buf id := by
  unfold Conn.Pending at h ⊢
  rwa [Conn.takeBuf_incomingFrags] at h

theorem Conn.msgError_dead (h : c.msgError buf = .ok c') : c'.dead = true := by
  obtain ⟨-, rfl⟩ := Conn.msgError_eq_ok.mp h
  simp [Conn.dead]

/-- What `giop_recv_buffer_handle_fragmented` and the code behind it do to the lists. -/
theorem FragCase.effect {error : Bool} (hb : completed env c r = some buf₁)
    (h : FragCase env c.takeBuf.1 buf₁ (error, buf₂, c₁))
    (hend : (error = true ∧ c₁.msgError buf₂ = .ok c') ∨
      (error = false ∧ buf₁.header.moreFragments = true ∧ c' = { c₁ with incomingMsg := none }) ∨
      (error = false ∧ buf₁.header.moreFragments = false ∧ dispatch env c₁ buf₂ = .ok c')) :
    Effect env c r c' := by
  cases h with
  | badType hm =>
    rcases hend with ⟨-, he⟩ | ⟨he, -⟩ | ⟨he, -⟩
    · have hdead := Conn.msgError_dead he
      obtain ⟨-, rfl⟩ := Conn.msgError_eq_ok.mp he
      exact .quiet (by simp) (by simp) (.inr (.inl hdead))
    · cases he
    · cases he
  | orphan hm hg hmore =>
    rcases hend with ⟨-, he⟩ | ⟨he, -⟩ | ⟨he, -⟩
    · have hdead := Conn.msgError_dead he
      obtain ⟨-, rfl⟩ := Conn.msgError_eq_ok.mp he
      exact .quiet (by simp) (by simp) (.inr (.inl hdead))
    · cases he
    · cases he
  | @opened buf id hm hg hmore =>
    have hh := messageId_header hm
    have hnot := Conn.not_pending_takeBuf (getFrag_not_pending (congrArg MsgHeader.version hh.symm) hg)
    rw [hh] at hmore
    rcases hend with ⟨he, -⟩ | ⟨-, -, rfl⟩ | ⟨-, he, -⟩
    · cases he
    · exact .opened hb hm hnot hmore (by simp) (by simp)
    · rw [hmore] at he
      cases he
  | @joined buf id before after l hm hg htype hlimit hmore =>
    have hh := messageId_header hm
    have hjoins := (getFrag_joins (congrArg MsgHeader.version hh.symm) htype hg).of_takeBuf
    rw [hh] at hmore
    rcases hend with ⟨he, -⟩ | ⟨-, -, rfl⟩ | ⟨-, he, -⟩
    · cases he
    · exact .joined hb hm hjoins hmore rfl (by simp)
    · rw [hmore] at he
      cases he
  | @whole buf id before after l c₂ c₃ new hm hg htype hlimit hmore hlast hcat hfree =>
    have hh := messageId_header hm
    have hjoins := (getFrag_joins (congrArg MsgHeader.version hh.symm) htype hg).of_takeBuf
    rw [hh] at hmore hlast
    obtain ⟨rfl, htail, block, rfl, hblock⟩ := concatFrags_some hcat
    obtain ⟨-, -, rfl⟩ := Conn.unuseAll_eq_ok.mp hfree
    rcases hend with ⟨he, -⟩ | ⟨-, he, -⟩ | ⟨-, -, hdis⟩
    · cases he
    · rw [hmore] at he
      cases he
    · obtain ⟨-, rfl⟩ := dispatch_eq_ok.mp hdis
      rw [Conn.takeBuf_allocs] at hblock
      cases hto : l.head.header.messageType.handedOver with
      | true =>
        refine .whole hb hm hjoins hmore hlast (fun b hb => (htail b hb).2) hblock hto rfl ?_
        simp [Conn.afterDispatch, addLength, hto, RecvBuffer.concat]
      | false =>
        refine .dropped hb hm hjoins hmore hlast rfl ?_ (.inr hto)
        simp [Conn.afterDispatch, addLength, hto]
  | @noMemory buf id before after l c₂ c₃ hm hg htype hlimit hmore hlast hcat hfree =>
    have hh := messageId_header hm
    have hjoins := (getFrag_joins (congrArg MsgHeader.version hh.symm) htype hg).of_takeBuf
    rw [hh] at hmore hlast
    obtain ⟨rfl, -⟩ := concatFrags_none hcat
    obtain ⟨-, -, rfl⟩ := Conn.unuseAll_eq_ok.mp hfree
    rcases hend with ⟨-, he⟩ | ⟨he, -⟩ | ⟨he, -⟩
    · have hdead := Conn.msgError_dead he
      obtain ⟨-, rfl⟩ := Conn.msgError_eq_ok.mp he
      exact .dropped hb hm hjoins hmore hlast rfl (by simp) (.inl hdead)
    · cases he
    · cases he

theorem afterDispatch_dispatched (env : Env) (c : Conn) (buf : RecvBuffer) :
    (c.afterDispatch env buf).dispatched =
      if buf.header.messageType.handedOver then c.dispatched ++ [buf] else c.dispatched := rfl

/-- What one read does to the lists and to the messages handed out. -/
theorem round_effect (env : Env) (c : Conn) (r : ReadResult) : Effect env c r (round env c r) := by
  have hround := round_cases env c r
  generalize round env c r = c' at hround ⊢
  cases hround with
  | dead hd => exact .quiet rfl rfl (.inr (.inl hd))
  | waits hd hb => exact .quiet (by simp) (by simp) (.inl (completed_waits hb))
  | stored hd hlen =>
    exact .quiet (by simp) (by simp) (.inl (completed_eq_none fun _ he _ => by omega))
  | hungUp hd hm =>
    obtain ⟨-, rfl⟩ := Conn.msgError_eq_ok.mp hm
    exact .quiet (by simp) (by simp) (.inl rfl)
  | @header bytes _ _ hd hne hlen hs hcase =>
    have hnone : completed env c (.data bytes) = none := by
      refine completed_eq_none fun _ _ hs' => ?_
      rw [hs] at hs'
      cases hs'
    cases hcase with
    | refused hc hm =>
      obtain ⟨-, rfl⟩ := Conn.msgError_eq_ok.mp hm
      rcases hc with rfl | rfl <;> exact .quiet (by simp) (by simp) (.inl hnone)
    | reading hp hl hpos => exact .quiet (by simp) (by simp) (.inl hnone)
    | @empty header _ hp h0 hdis =>
      obtain ⟨-, rfl⟩ := dispatch_eq_ok.mp hdis
      cases hto : header.messageType.handedOver with
      | true =>
        refine .empty rfl hlen hs hp h0 hto c.takeBuf_incomingFrags (?_ : _ =
          c.dispatched ++ [(c.takeBuf.2.store bytes).opened header c.takeBuf.1.allocs])
        simp [afterDispatch_dispatched, RecvBuffer.opened, hto]
      | false =>
        refine .quiet (by simp [Conn.afterDispatch]) ?_ (.inl hnone)
        simp [afterDispatch_dispatched, RecvBuffer.opened, hto]
  | @body bytes _ hd hne hlen hs hcase =>
    have hcomp := fun buf => @completed_eq env _ _ buf hd hne hlen hs
    cases hcase with
    | refused hid hwhy hm =>
      have hdead := Conn.msgError_dead hm
      obtain ⟨-, rfl⟩ := Conn.msgError_eq_ok.mp hm
      exact .quiet (by simp) (by simp) (.inr (.inl hdead))
    | @plain buf _ hle hd hmore htype hdis =>
      obtain ⟨-, rfl⟩ := dispatch_eq_ok.mp hdis
      have hf : buf.fragmented = false := by simp [RecvBuffer.fragmented, hmore, htype]
      cases hto : buf.header.messageType.handedOver with
      | true =>
        refine .plain (hcomp _ hd) hf hto (by simp [Conn.afterDispatch]) ?_
        simp [afterDispatch_dispatched, hto]
      | false =>
        refine .quiet (by simp [Conn.afterDispatch]) ?_ (.inr (.inr ⟨buf, hcomp _ hd, hf, hto⟩))
        simp [afterDispatch_dispatched, hto]
    | fragError hle hd hwhy hcase hm => exact hcase.effect (hcomp _ hd) (.inl ⟨rfl, hm⟩)
    | held hle hd hmore hcase => exact hcase.effect (hcomp _ hd) (.inr (.inl ⟨rfl, hmore, rfl⟩))
    | reassembled hle hd hmore htype hcase hdis =>
      exact hcase.effect (hcomp _ hd) (.inr (.inr ⟨rfl, hmore, hdis⟩))
  | faulted hd hcase => exact .quiet (by simp) (by simp) (.inr (.inl (by simp [Conn.dead])))

/-- No read changes `is_auth`, and blocks are numbered upwards. -/
theorem round_frame (env : Env) (c : Conn) (r : ReadResult) :
    (round env c r).isAuth = c.isAuth ∧ c.allocs ≤ (round env c r).allocs := by
  have hstart : c.takeBuf.1.isAuth = c.isAuth ∧ c.allocs ≤ c.takeBuf.1.allocs :=
    ⟨c.takeBuf_isAuth, c.takeBuf_allocs.ge⟩
  have hmore : c.takeBuf.1.isAuth = c.isAuth ∧ c.allocs ≤ c.takeBuf.1.allocs + 1 :=
    ⟨hstart.1, Nat.le_succ_of_le hstart.2⟩
  have hround := round_cases env c r
  generalize round env c r = c' at hround ⊢
  cases hround with
  | dead hd => exact ⟨rfl, Nat.le_refl _⟩
  | waits hd hb => exact hstart
  | stored hd hlen => exact hstart
  | faulted hd hcase => exact hstart
  | hungUp hd hm =>
    obtain ⟨-, rfl⟩ := Conn.msgError_eq_ok.mp hm
    exact hstart
  | header hd hne hlen hs hcase =>
    cases hcase with
    | refused hc hm =>
      obtain ⟨-, rfl⟩ := Conn.msgError_eq_ok.mp hm
      rcases hc with rfl | rfl
      · exact hstart
      · exact hmore
    | reading hp hl hpos => exact hmore
    | empty hp h0 hdis =>
      obtain ⟨-, rfl⟩ := dispatch_eq_ok.mp hdis
      exact hmore
  | body hd hne hlen hs hcase =>
    cases hcase with
    | refused hid hwhy hm =>
      obtain ⟨-, rfl⟩ := Conn.msgError_eq_ok.mp hm
      exact hstart
    | plain hle hd hmore htype hdis =>
      obtain ⟨-, rfl⟩ := dispatch_eq_ok.mp hdis
      exact hstart
    | fragError hle hd hwhy hcase hm =>
      obtain ⟨frags, allocs, gone, hle, rfl⟩ := hcase.frame
      obtain ⟨-, rfl⟩ := Conn.msgError_eq_ok.mp hm
      exact ⟨hstart.1, Nat.le_trans hstart.2 hle⟩
    | held hle hd hmore hcase =>
      obtain ⟨frags, allocs, gone, hle, rfl⟩ := hcase.frame
      exact ⟨hstart.1, Nat.le_trans hstart.2 hle⟩
    | reassembled hle hd hmore htype hcase hdis =>
      obtain ⟨frags, allocs, gone, hle, rfl⟩ := hcase.frame
      obtain ⟨-, rfl⟩ := dispatch_eq_ok.mp hdis
      exact ⟨hstart.1, Nat.le_trans hstart.2 hle⟩

theorem Conn.Joins.listFor {before after : List FragList} {l : FragList}
    (h : c.Joins buf id before l after) : c.listFor buf id = some l := by
  unfold Conn.listFor
  rcases h.found with ⟨hid, hbefore⟩ | ⟨hv, hb, hnone⟩
  · have hfind : c.incomingFrags.find? (·.head.requestId = id) = some l := by
      rw [h.lists, List.find?_append]
      have hn : before.find? (·.head.requestId = id) = none := by
        rw [List.find?_eq_none]
        intro x hx
        simpa using hbefore x hx
      simp [hn, hid]
    rw [hfind]
  · have hfind : c.incomingFrags.find? (·.head.requestId = id) = none := by
      rw [List.find?_eq_none]
      intro x hx
      simpa using hnone x hx
    rw [hfind]
    simp [hv, h.lists, hb]

theorem RecvBuffer.Arrived.body_length {isAuth : Bool} (h : buf.Arrived env isAuth) :
    buf.body.length = buf.header.messageSize := by
  have hfull := h.full
  have hstop := h.stop
  rw [RecvBuffer.data_length] at hfull
  omega

/-- What a list holds when a buffer has joined it. -/
theorem FragList.held_join (l : FragList) (buf : RecvBuffer) :
    (FragList.mk (addLength l.head buf) (l.tail ++ [buf])).held = l.held ++ buf.remaining := by
  simp [FragList.held, addLength]

theorem messageId_body (hm : messageId env buf = some (buf', id)) : buf'.body = buf.body := by
  rcases messageId_some hm with ⟨-, rfl, -⟩ | ⟨-, -, rfl, -⟩ | ⟨-, -, rfl, -⟩ <;> rfl

theorem messageId_full (hm : messageId env buf = some (buf', id))
    (h : buf.data.length = buf.stop) : buf'.data.length = buf'.stop := by
  rcases messageId_some hm with ⟨-, rfl, -⟩ | ⟨-, -, rfl, -⟩ | ⟨-, -, rfl, -⟩ <;> exact h

end

end ORBit2
