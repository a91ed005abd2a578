import ORBit2.Framing

/-! The lists in `incoming_frags` along a run: what they hold, who owns their
buffers, and when the code that walks them cannot go wrong. -/

set_option autoImplicit false

namespace ORBit2
open Words Runs

def FragList.bufs (l : FragList) : List RecvBuffer := l.head :: l.tail

def listed (frags : List FragList) : List RecvBuffer := frags.flatMap FragList.bufs

/-- A buffer behind the head of a list: what `concat_frags` copies of it is what it
brought, less the request id in front of a fragment. -/
structure RecvBuffer.Joined (buf : RecvBuffer) : Prop where
  le : buf.cur ≤ buf.stop
  full : buf.data.length = buf.stop
  stop : buf.stop = 12 + buf.header.messageSize
  start : buf.header.messageType = .fragment →
    buf.cur = if buf.header.version = .v1_1 then 12 else 16

/-- The lists own their buffers: each is in one place, and none of them is gone. -/
structure Kept (frags : List FragList) (gone : List Nat) (buffers : Nat) : Prop where
  once : ((listed frags).map (·.id)).Nodup
  born : ∀ i ∈ gone, i < buffers
  alive : ∀ buf ∈ listed frags, buf.id < buffers ∧ buf.id ∉ gone

/-- What the lists hold is what the code that walks them takes for granted. -/
structure Table (frags : List FragList) : Prop where
  heads : ∀ l ∈ frags, l.head.header.messageType ≠ .fragment
  bodies : ∀ l ∈ frags, l.head.freeBody = true
  distinct : (frags.map (·.head.requestId)).Nodup
  joined : ∀ l ∈ frags, ∀ buf ∈ l.tail, buf.Joined

/-- A buffer the loop holds: alive, and in no list. -/
structure Owned (frags : List FragList) (gone : List Nat) (buffers id : Nat) : Prop where
  lt : id < buffers
  live : id ∉ gone
  apart : ∀ buf ∈ listed frags, buf.id ≠ id

section
variable {frags before after : List FragList} {gone : List Nat} {buffers id : Nat}
  {l l' : FragList}

theorem listed_cons (l : FragList) (frags : List FragList) :
    listed (l :: frags) = l.bufs ++ listed frags := rfl

theorem listed_append (frags frags' : List FragList) :
    listed (frags ++ frags') = listed frags ++ listed frags' := List.flatMap_append

theorem listed_zipper (before after : List FragList) (l : FragList) :
    listed (before ++ l :: after) = listed before ++ (l.bufs ++ listed after) := by
  rw [listed_append, listed_cons]

theorem mem_listed {buf : RecvBuffer} : buf ∈ listed frags ↔ ∃ l ∈ frags, buf ∈ l.bufs :=
  List.mem_flatMap

theorem Kept.empty (buffers : Nat) : Kept [] [] buffers := by
  constructor <;> simp [listed]

theorem Table.empty : Table [] := by
  constructor <;> simp

/-- A buffer more was handed out. -/
theorem Kept.grow (h : Kept frags gone buffers) : Kept frags gone (buffers + 1) :=
  { h with
    born := fun i hi => Nat.lt_succ_of_lt (h.born i hi)
    alive := fun buf hb => ⟨Nat.lt_succ_of_lt (h.alive buf hb).1, (h.alive buf hb).2⟩ }

theorem Kept.newborn (h : Kept frags gone buffers) : Owned frags gone (buffers + 1) buffers := by
  refine ⟨Nat.lt_succ_self _, fun hm => ?_, fun buf hb he => ?_⟩
  · exact Nat.lt_irrefl _ (h.born _ hm)
  · have hlt := (h.alive buf hb).1
    omega

/-- The buffer the loop holds is freed or given away. -/
theorem Kept.release (h : Kept frags gone buffers) (ho : Owned frags gone buffers id) :
    Kept frags (id :: gone) buffers :=
  { h with
    born := by
      intro i hi
      rcases List.mem_cons.mp hi with rfl | hi
      · exact ho.lt
      · exact h.born i hi
    alive := by
      intro buf hb
      refine ⟨(h.alive buf hb).1, fun hm => ?_⟩
      rcases List.mem_cons.mp hm with he | hm
      · exact ho.apart buf hb he
      · exact (h.alive buf hb).2 hm }

/-- A list is opened for the buffer the loop holds. -/
theorem Kept.open (h : Kept frags gone buffers) {buf : RecvBuffer}
    (ho : Owned frags gone buffers buf.id) : Kept (⟨buf, []⟩ :: frags) gone buffers := by
  have hl : listed (⟨buf, []⟩ :: frags) = buf :: listed frags := rfl
  refine ⟨?_, h.born, ?_⟩
  · rw [hl, List.map_cons, List.nodup_cons]
    refine ⟨fun hm => ?_, h.once⟩
    obtain ⟨b, hb, he⟩ := List.mem_map.mp hm
    exact ho.apart b hb he
  · rw [hl, List.forall_mem_cons]
    exact ⟨⟨ho.lt, ho.live⟩, h.alive⟩

theorem Table.open (h : Table frags) {buf : RecvBuffer} (ht : buf.header.messageType ≠ .fragment)
    (hf : buf.freeBody = true) (hid : ∀ l ∈ frags, l.head.requestId ≠ buf.requestId) :
    Table (⟨buf, []⟩ :: frags) := by
  refine ⟨?_, ?_, ?_, ?_⟩
  · rw [List.forall_mem_cons]
    exact ⟨ht, h.heads⟩
  · rw [List.forall_mem_cons]
    exact ⟨hf, h.bodies⟩
  · rw [List.map_cons, List.nodup_cons]
    refine ⟨fun hm => ?_, h.distinct⟩
    obtain ⟨l, hl, he⟩ := List.mem_map.mp hm
    exact hid l hl he
  · rw [List.forall_mem_cons]
    exact ⟨by simp, h.joined⟩

/-- The buffer the loop holds joins a list, whose head only changes its length. -/
theorem Kept.join (h : Kept (before ++ l :: after) gone buffers) {buf : RecvBuffer}
    (ho : Owned (before ++ l :: after) gone buffers buf.id) :
    Kept (before ++ ⟨addLength l.head buf, l.tail ++ [buf]⟩ :: after) gone buffers := by
  have hids : (listed (before ++ ⟨addLength l.head buf, l.tail ++ [buf]⟩ :: after)).map (·.id) =
      (listed before).map (·.id) ++ ((l.bufs.map (·.id) ++ [buf.id]) ++
        (listed after).map (·.id)) := by
    simp [listed_zipper, FragList.bufs, addLength]
  have hold : (listed (before ++ l :: after)).map (·.id) =
      (listed before).map (·.id) ++ (l.bufs.map (·.id) ++ (listed after).map (·.id)) := by
    simp [listed_zipper]
  have hmem : ∀ i, i ∈ (listed (before ++ ⟨addLength l.head buf, l.tail ++ [buf]⟩ :: after)).map
      (·.id) ↔ i = buf.id ∨ i ∈ (listed (before ++ l :: after)).map (·.id) := by
    intro i
    rw [hids, hold]
    simp only [List.mem_append, List.mem_singleton]
    tauto
  have hnew : buf.id ∉ (listed (before ++ l :: after)).map (·.id) := by
    intro hm
    obtain ⟨b, hb, he⟩ := List.mem_map.mp hm
    exact ho.apart b hb he
  refine ⟨?_, h.born, ?_⟩
  · have hn := h.once
    have hperm : ((listed (before ++ ⟨addLength l.head buf, l.tail ++ [buf]⟩ :: after)).map
        (·.id)).Perm (buf.id :: (listed (before ++ l :: after)).map (·.id)) := by
      rw [hids, hold, List.append_assoc, List.singleton_append, ← List.append_assoc,
        ← List.append_assoc]
      exact List.perm_middle
    exact hperm.nodup_iff.mpr (List.nodup_cons.mpr ⟨hnew, hn⟩)
  · intro b hb
    rcases (hmem b.id).mp (List.mem_map_of_mem hb) with he | hm
    · rw [he]
      exact ⟨ho.lt, ho.live⟩
    · obtain ⟨b', hb', he⟩ := List.mem_map.mp hm
      rw [← he]
      exact h.alive b' hb'

theorem Table.join (h : Table (before ++ l :: after)) {buf : RecvBuffer} (hj : buf.Joined) :
    Table (before ++ ⟨addLength l.head buf, l.tail ++ [buf]⟩ :: after) := by
  refine ⟨?_, ?_, ?_, ?_⟩
  · intro x hx
    rcases List.mem_append.mp hx with hx | hx
    · exact h.heads x (by simp [hx])
    rcases List.mem_cons.mp hx with rfl | hx
    · exact h.heads l (by simp)
    · exact h.heads x (by simp [hx])
  · intro x hx
    rcases List.mem_append.mp hx with hx | hx
    · exact h.bodies x (by simp [hx])
    rcases List.mem_cons.mp hx with rfl | hx
    · exact h.bodies l (by simp)
    · exact h.bodies x (by simp [hx])
  · have hd := h.distinct
    simpa [addLength, RecvBuffer.requestId] using hd
  · intro x hx b hb
    rcases List.mem_append.mp hx with hx | hx
    · exact h.joined x (by simp [hx]) b hb
    rcases List.mem_cons.mp hx with rfl | hx
    · rcases List.mem_append.mp hb with hb | hb
      · exact h.joined l (by simp) b hb
      · obtain rfl := List.mem_singleton.mp hb
        exact hj
    · exact h.joined x (by simp [hx]) b hb

/-- A list is closed: what was behind its head is freed, and the loop holds the head. -/
theorem Kept.close (h : Kept (before ++ l :: after) gone buffers) :
    Kept (before ++ after) ((l.tail.map (·.id)).reverse ++ gone) buffers ∧
    Owned (before ++ after) ((l.tail.map (·.id)).reverse ++ gone) buffers l.head.id := by
  have hperm : (listed (before ++ l :: after)).Perm
      (l.head :: (l.tail ++ listed (before ++ after))) := by
    rw [listed_zipper, listed_append]
    refine (List.perm_append_comm_assoc _ _ _).trans ?_
    exact List.Perm.refl _
  have hnodup := (hperm.map (·.id)).nodup_iff.mp h.once
  rw [List.map_cons, List.map_append, List.nodup_cons, List.nodup_append] at hnodup
  obtain ⟨hhead, htail, hrest, hdisj⟩ := hnodup
  simp only [List.mem_append, not_or] at hhead
  have hgone : ∀ b ∈ listed (before ++ l :: after), b.id < buffers ∧ b.id ∉ gone := h.alive
  have hl : l ∈ before ++ l :: after := by simp
  refine ⟨⟨hrest, ?_, ?_⟩, ⟨?_, ?_, ?_⟩⟩
  · intro i hi
    rcases List.mem_append.mp hi with hi | hi
    · obtain ⟨b, hb, rfl⟩ := List.mem_map.mp (List.mem_reverse.mp hi)
      exact (hgone b (mem_listed.mpr ⟨l, hl, by simp [FragList.bufs, hb]⟩)).1
    · exact h.born i hi
  · intro b hb
    have hb' := hgone b (hperm.symm.subset (by simp [hb]))
    refine ⟨hb'.1, fun hm => ?_⟩
    rcases List.mem_append.mp hm with hm | hm
    · exact hdisj _ (List.mem_reverse.mp hm) _ (List.mem_map_of_mem hb) rfl
    · exact hb'.2 hm
  · exact (hgone l.head (hperm.symm.subset (by simp))).1
  · intro hm
    rcases List.mem_append.mp hm with hm | hm
    · exact hhead.1 (List.mem_reverse.mp hm)
    · exact (hgone l.head (hperm.symm.subset (by simp))).2 hm
  · intro b hb he
    exact hhead.2 (he ▸ List.mem_map_of_mem hb)

theorem Table.close (h : Table (before ++ l :: after)) : Table (before ++ after) := by
  have hsub : (before ++ after).Sublist (before ++ l :: after) :=
    List.Sublist.append_left (List.sublist_cons_self _ _) _
  exact ⟨fun x hx => h.heads x (hsub.subset hx), fun x hx => h.bodies x (hsub.subset hx),
    (hsub.map _).nodup h.distinct, fun x hx => h.joined x (hsub.subset hx)⟩

/-- What is behind a head can be freed. -/
theorem Kept.tail_free (h : Kept (before ++ l :: after) gone buffers) :
    (l.tail.map (·.id)).Nodup ∧ ∀ buf ∈ l.tail, buf.id ∉ gone := by
  have hn := h.once
  rw [listed_zipper, List.map_append, List.map_append] at hn
  refine ⟨?_, fun b hb => (h.alive b (mem_listed.mpr ⟨l, by simp, by simp [FragList.bufs, hb]⟩)).2⟩
  have h1 := (List.nodup_append.mp (List.nodup_append.mp hn).2.1).1
  rw [FragList.bufs, List.map_cons, List.nodup_cons] at h1
  exact h1.2

theorem Kept.head_alive (h : Kept frags gone buffers) (hl : l ∈ frags) : l.head.id ∉ gone :=
  (h.alive l.head (mem_listed.mpr ⟨l, hl, by simp [FragList.bufs]⟩)).2

end

abbrev Conn.Keeps (c : Conn) : Prop := Kept c.incomingFrags c.gone c.buffers

abbrev Conn.Tabled (c : Conn) : Prop := Table c.incomingFrags

abbrev Conn.Owns (c : Conn) (buf : RecvBuffer) : Prop :=
  Owned c.incomingFrags c.gone c.buffers buf.id

/-- Some list is open that a message with this id joins. -/
def Conn.Pending (c : Conn) (buf : RecvBuffer) (id : Nat) : Prop :=
  (∃ l ∈ c.incomingFrags, l.head.requestId = id) ∨
  (buf.header.version = .v1_1 ∧ c.incomingFrags ≠ [])

instance (c : Conn) (buf : RecvBuffer) (id : Nat) : Decidable (c.Pending buf id) :=
  inferInstanceAs (Decidable (_ ∨ _))

/-- A message keeps the lists in order: a fragment that more fragments follow has a list
to join, and what joins a list is not shorter than its decoded header. -/
def Conn.Orderly (env : Env) (c : Conn) (buf : RecvBuffer) : Prop :=
  match messageId env buf with
  | none => True
  | some (_, id) =>
      if c.Pending buf id then buf.header.messageType = .fragment ∨ buf.cur ≤ buf.stop
      else buf.header.messageType ≠ .fragment ∨ buf.header.moreFragments = false

instance (env : Env) (c : Conn) (buf : RecvBuffer) : Decidable (c.Orderly env buf) := by
  unfold Conn.Orderly
  split <;> infer_instance

/-- What a read completes keeps the lists in order, if it is for them. -/
def orderly (env : Env) (c : Conn) (r : ReadResult) : Prop :=
  match completed env c r with
  | none => True
  | some buf => buf.fragmented = true → c.Orderly env buf

instance (env : Env) (c : Conn) (r : ReadResult) : Decidable (orderly env c r) := by
  unfold orderly
  split <;> infer_instance

section
variable {env : Env} {c c' c₁ : Conn} {buf buf' buf₁ buf₂ : RecvBuffer} {id : Nat}

theorem Conn.Orderly.of_pending (hm : messageId env buf = some (buf', id)) (hp : c.Pending buf id)
    (h : buf.header.messageType = .fragment ∨ buf.cur ≤ buf.stop) : c.Orderly env buf := by
  unfold Conn.Orderly
  simp only [hm, if_pos hp]
  exact h

theorem Conn.Orderly.of_not_pending (hm : messageId env buf = some (buf', id))
    (hp : ¬ c.Pending buf id)
    (h : buf.header.messageType ≠ .fragment ∨ buf.header.moreFragments = false) :
    c.Orderly env buf := by
  unfold Conn.Orderly
  simp only [hm, if_neg hp]
  exact h

theorem Conn.Orderly.notOrphan (h : c.Orderly env buf) (hm : messageId env buf = some (buf', id))
    (ht : buf.header.messageType = .fragment) (hmore : buf.header.moreFragments = true) :
    c.Pending buf id := by
  unfold Conn.Orderly at h
  by_contra hp
  simp [hm, hp, ht, hmore] at h

theorem Conn.Orderly.notShort (h : c.Orderly env buf) (hm : messageId env buf = some (buf', id))
    (hp : c.Pending buf id) (ht : buf.header.messageType ≠ .fragment) : buf.cur ≤ buf.stop := by
  unfold Conn.Orderly at h
  simpa [hm, hp, ht] using h

theorem Conn.Orderly.takeBuf (h : c.Orderly env buf) : c.takeBuf.1.Orderly env buf := by
  unfold Conn.takeBuf
  cases c.incomingMsg <;> exact h

theorem orderly_apply {r : ReadResult} (h : orderly env c r) (hb : completed env c r = some buf)
    (hf : buf.fragmented = true) : c.Orderly env buf := by
  unfold orderly at h
  rw [hb] at h
  exact h hf

theorem fragmentId_ok {cursor cursor' : RecvCursor} (hb : cursor.base = 0)
    (h : fragmentId cursor = .ok (id, cursor')) :
    cursor'.cur = alignUp cursor.cur 4 + 4 ∧ alignUp cursor.cur 4 + 4 ≤ cursor.data.length := by
  unfold fragmentId Dec.word at h
  have halign : Dec.align 4 cursor = .ok ((), { cursor with cur := alignUp cursor.cur 4 }) := by
    simp [Dec.align, hb]
  rw [Dec.bind_ok halign] at h
  by_cases hn : cursor.data.length < alignUp cursor.cur 4 + 4
  · rw [Dec.bind_error (e := .fail) (by simp [Dec.need, hn])] at h
    cases h
  have hneed : Dec.need 4 { cursor with cur := alignUp cursor.cur 4 } =
      .ok ((), { cursor with cur := alignUp cursor.cur 4 }) := by
    simp [Dec.need, hn]
  rw [Dec.bind_ok hneed] at h
  rw [Dec.bind_eq_ok] at h
  obtain ⟨n, c₁, hp, h⟩ := h
  have hc : c₁ = { cursor with cur := alignUp cursor.cur 4 } := by
    simp only [Dec.peek, hn, if_false, Except.ok.injEq, Prod.mk.injEq] at hp
    exact hp.2.symm
  simp only [Dec.advance, bind, Except.ok.injEq, Prod.mk.injEq, pure] at h
  rw [← h.2, hc]
  exact ⟨rfl, by omega⟩

/-- What the first `switch` makes of a message. -/
theorem messageId_some (h : messageId env buf = some (buf', id)) :
    (buf.header.messageType ≠ .fragment ∧ buf' = buf ∧ id = buf.requestId) ∨
    (buf.header.messageType = .fragment ∧ buf.header.version = .v1_1 ∧ buf' = buf ∧ id = 0) ∨
    (buf.header.messageType = .fragment ∧ buf.header.version ≠ .v1_1 ∧
      buf' = { buf with cur := alignUp buf.cur 4 + 4 } ∧
      alignUp buf.cur 4 + 4 ≤ buf.data.length) := by
  unfold messageId at h
  cases ht : buf.header.messageType <;> simp only [ht] at h
  case request | reply | locateRequest | locateReply =>
    simp only [Option.some.injEq, Prod.mk.injEq] at h
    exact .inl ⟨by simp, h.1.symm, h.2.symm⟩
  case cancelRequest | closeConnection | messageError => cases h
  case fragment =>
    by_cases hv : buf.header.version = .v1_1
    · simp only [hv, if_true, Option.some.injEq, Prod.mk.injEq] at h
      exact .inr (.inl ⟨rfl, hv, h.1.symm, h.2.symm⟩)
    · simp only [hv, if_false] at h
      cases hf : fragmentId (buf.cursor env.host) with
      | error e => simp [hf] at h
      | ok p =>
        obtain ⟨id', cursor⟩ := p
        simp only [hf, Option.some.injEq, Prod.mk.injEq] at h
        obtain ⟨hcur, hlen⟩ := fragmentId_ok rfl hf
        refine .inr (.inr ⟨rfl, hv, ?_, hlen⟩)
        rw [← h.1, hcur]
        rfl

theorem messageId_id (h : messageId env buf = some (buf', id)) : buf'.id = buf.id := by
  rcases messageId_some h with ⟨-, rfl, -⟩ | ⟨-, -, rfl, -⟩ | ⟨-, -, rfl, -⟩ <;> rfl

theorem messageId_header (h : messageId env buf = some (buf', id)) : buf'.header = buf.header := by
  rcases messageId_some h with ⟨-, rfl, -⟩ | ⟨-, -, rfl, -⟩ | ⟨-, -, rfl, -⟩ <;> rfl

theorem getFrag_pending {before after : List FragList} {frags : FragList} {version : Version}
    (hv : buf.header.version = version)
    (h : getFrag c id (version = .v1_1) = .ok (some (before, frags, after))) :
    c.Pending buf id := by
  obtain ⟨hl, hid | hfirst⟩ := getFrag_some h
  · exact .inl ⟨frags, by simp [hl], hid.1⟩
  · exact .inr ⟨by simpa [hv] using hfirst.1, by simp [hl]⟩

/-- What joins a list in an orderly way. -/
theorem Conn.Orderly.joined (hc : c.Orderly env buf) (ha : buf.Arrived env c.isAuth)
    (hm : messageId env buf = some (buf', id)) (hp : c.Pending buf id) : buf'.Joined := by
  have hstop := ha.stop
  have hfull := ha.full
  rcases messageId_some hm with ⟨ht, rfl, -⟩ | ⟨ht, hv, rfl, -⟩ | ⟨ht, hv, rfl, hlen⟩
  · exact ⟨hc.notShort hm hp ht, hfull, hstop, fun h => absurd h ht⟩
  · have hcur := ha.start ht
    exact ⟨by omega, hfull, hstop, fun _ => by rw [hv, if_pos rfl, hcur]⟩
  · refine ⟨hfull ▸ hlen, hfull, hstop, fun _ => ?_⟩
    simp only [if_neg hv, ha.start ht]
    rfl

/-- `giop_recv_buffer_handle_fragmented` loses no buffer and keeps none that it freed. -/
theorem FragCase.kept {error : Bool} (hk : c.Keeps) (ho : c.Owns buf₁)
    (h : FragCase env c buf₁ (error, buf₂, c₁)) :
    c₁.Keeps ∧ (error = true ∨ buf₁.header.moreFragments = false → c₁.Owns buf₂) := by
  cases h with
  | badType hm => exact ⟨hk, fun _ => ho⟩
  | orphan hm hg hmore => exact ⟨hk, fun _ => by rwa [Conn.Owns, messageId_id hm]⟩
  | @opened buf id hm hg hmore =>
    rw [Conn.Owns, ← messageId_id hm] at ho
    refine ⟨Kept.open hk ho, ?_⟩
    rintro (he | he)
    · cases he
    · rw [← messageId_header hm, hmore] at he
      cases he
  | @joined buf id before after frags hm hg htype hlimit hmore =>
    have hl := (getFrag_some hg).1
    rw [Conn.Keeps, hl] at hk
    rw [Conn.Owns, hl, ← messageId_id hm] at ho
    refine ⟨Kept.join hk ho, ?_⟩
    rintro (he | he)
    · cases he
    · rw [← messageId_header hm, hmore] at he
      cases he
  | @whole buf id before after frags c₂ c₃ new hm hg htype hlimit hmore hlast hcat hfree =>
    have hl := (getFrag_some hg).1
    rw [Conn.Keeps, hl] at hk
    rw [Conn.Owns, hl, ← messageId_id hm] at ho
    obtain ⟨hkept, howned⟩ := (Kept.join hk ho).close
    obtain ⟨rfl, -, block, rfl, -⟩ := concatFrags_some hcat
    obtain ⟨-, -, rfl⟩ := Conn.unuseAll_eq_ok.mp hfree
    exact ⟨hkept, fun _ => howned⟩
  | @noMemory buf id before after frags c₂ c₃ hm hg htype hlimit hmore hlast hcat hfree =>
    have hl := (getFrag_some hg).1
    rw [Conn.Keeps, hl] at hk
    rw [Conn.Owns, hl, ← messageId_id hm] at ho
    obtain ⟨hkept, howned⟩ := (Kept.join hk ho).close
    obtain ⟨rfl, -⟩ := concatFrags_none hcat
    obtain ⟨-, -, rfl⟩ := Conn.unuseAll_eq_ok.mp hfree
    exact ⟨hkept, fun _ => howned⟩

/-- `giop_recv_buffer_handle_fragmented` keeps the lists in order. -/
theorem FragCase.tabled {error : Bool} (ht : c.Tabled) (ha : buf₁.Arrived env c.isAuth)
    (hc : c.Orderly env buf₁) (h : FragCase env c buf₁ (error, buf₂, c₁)) : c₁.Tabled := by
  cases h with
  | badType | orphan => exact ht
  | @opened buf id hm hg hmore =>
    have hh := messageId_header hm
    obtain ⟨hnone, hfirst⟩ := getFrag_none hg
    have hnot : ¬ c.Pending buf₁ id := by
      rintro (⟨l, hl, he⟩ | ⟨hv, hne⟩)
      · exact hnone l hl he
      · exact hne (hfirst (by simp [hh, hv]))
    have htype : buf₁.header.messageType ≠ .fragment := by
      intro htype
      exact hnot (hc.notOrphan hm htype (by rwa [hh] at hmore))
    rcases messageId_some hm with ⟨-, rfl, rfl⟩ | ⟨hf, -⟩ | ⟨hf, -⟩
    · exact Table.open ht htype ha.owned hnone
    · exact absurd hf htype
    · exact absurd hf htype
  | @joined buf id before after frags hm hg htype hlimit hmore =>
    rw [Conn.Tabled, (getFrag_some hg).1] at ht
    exact Table.join ht (hc.joined ha hm (getFrag_pending (messageId_header hm ▸ rfl) hg))
  | @whole buf id before after frags c₂ c₃ new hm hg htype hlimit hmore hlast hcat hfree =>
    rw [Conn.Tabled, (getFrag_some hg).1] at ht
    exact Table.close ht
  | @noMemory buf id before after frags c₂ c₃ hm hg htype hlimit hmore hlast hcat hfree =>
    rw [Conn.Tabled, (getFrag_some hg).1] at ht
    exact Table.close ht

/-- The list a fragment completes has lost count of more than 2^32 bytes. -/
def Conn.Overflows (env : Env) (c : Conn) (buf : RecvBuffer) : Prop :=
  ∃ part id before l after, messageId env buf = some (part, id) ∧
    getFrag c id (part.header.version = .v1_1) = .ok (some (before, l, after)) ∧
    12 + ((addLength l.head part).header.messageSize + (l.head.cur - 12)) <
      l.head.stop + ((l.tail ++ [part]).flatMap RecvBuffer.remaining).length

/-- With its lists in order, only a total of 2^32 bytes goes wrong. -/
theorem concatFrags_error {head : RecvBuffer} {tail : List RecvBuffer} {fault : Fault}
    (hf : head.freeBody = true) (hb : ∀ buf ∈ tail, buf.id ∉ c.gone ∧ buf.cur ≤ buf.stop)
    (h : concatFrags env c head tail = .error fault) : fault = .heapOverflow ∧
      12 + (head.header.messageSize + (head.cur - 12)) <
        head.stop + (tail.flatMap RecvBuffer.remaining).length := by
  unfold concatFrags at h
  simp only [hf, Bool.true_eq_false, if_false] at h
  obtain ⟨c₁, new, ha⟩ : ∃ c₁ new, allocBuffer env c head head.block
      (head.header.messageSize + (head.cur - 12)) = (c₁, new) := ⟨_, _, rfl⟩
  rw [ha] at h
  cases new with
  | none => simp [pure, Except.pure] at h
  | some new =>
    obtain ⟨rfl, -⟩ := allocBuffer_some ha
    have hc := copyFrags_eq_ok (c := { c with allocs := c.allocs + 1 }).mpr ⟨hb, rfl⟩
    simp only [hc, bind, Except.bind, pure, Except.pure] at h
    split at h
    · rename_i hlt
      exact ⟨by simpa using h.symm, hlt⟩
    · cases h

/-- With the lists in order, nothing in them is freed twice, used after it was freed or
trips an assertion. -/
theorem handleFragmented_error {fault : Fault} (hk : c.Keeps) (ht : c.Tabled) (ho : c.Owns buf₁)
    (ha : buf₁.Arrived env c.isAuth) (hc : c.Orderly env buf₁) (hf : buf₁.fragmented = true)
    (h : handleFragmented env c buf₁ = .error fault) :
    fault = .heapOverflow ∧ c.Overflows env buf₁ := by
  unfold handleFragmented at h
  cases hm : messageId env buf₁ with
  | none => simp [hm] at h
  | some p =>
    obtain ⟨buf, id⟩ := p
    have hh := messageId_header hm
    simp only [hm] at h
    obtain ⟨found, hg⟩ := @getFrag_ok c id (buf.header.version = .v1_1)
      (fun l hl => Kept.head_alive hk hl)
    simp only [hg, bind, Except.bind] at h
    cases found with
    | none =>
      cases hmore : buf.header.moreFragments <;> simp [hmore, pure, Except.pure] at h
    | some z =>
      obtain ⟨before, frags, after⟩ := z
      have hl := (getFrag_some hg).1
      have hj := hc.joined ha hm (getFrag_pending (messageId_header hm ▸ rfl) hg)
      have hmem : frags ∈ c.incomingFrags := by simp [hl]
      have hgone : frags.head.id ∉ c.gone := Kept.head_alive hk hmem
      have hhead : frags.head.header.messageType ≠ .fragment := ht.heads frags hmem
      have hlimit : ¬ (c.isAuth = false ∧ env.limit < buf.header.messageSize) := by
        rintro ⟨hauth, hlt⟩
        have := ha.limit hauth
        rw [hh] at hlt
        omega
      simp only [Conn.access, hgone, hhead, hlimit, if_false] at h
      cases hmore : buf.header.moreFragments with
      | true => simp [hmore, pure, Except.pure] at h
      | false =>
        have hlast : ¬ buf.header.messageType ≠ .fragment := by
          rw [hh] at hmore ⊢
          simpa [RecvBuffer.fragmented, hmore] using hf
        simp only [hmore, Bool.false_eq_true, if_false, hlast] at h
        have hbody : (addLength frags.head buf).freeBody = true := ht.bodies frags hmem
        have hkept := hk
        have htable := ht
        have howned := ho
        rw [Conn.Keeps, hl] at hkept
        rw [Conn.Tabled, hl] at htable
        rw [Conn.Owns, hl, ← messageId_id hm] at howned
        have hnew := Table.join htable hj
        obtain ⟨hnodup, hfree⟩ := (Kept.join hkept howned).tail_free
        have htail : ∀ b ∈ frags.tail ++ [buf], b.id ∉ c.gone ∧ b.cur ≤ b.stop := by
          intro b hb
          exact ⟨hfree b hb, (hnew.joined ⟨addLength frags.head buf, frags.tail ++ [buf]⟩ (by simp) b hb).le⟩
        cases hcat : concatFrags env c (addLength frags.head buf) (frags.tail ++ [buf]) with
        | error fault' =>
          simp only [hcat, Except.error.injEq] at h
          obtain ⟨hfault, hlt⟩ := concatFrags_error hbody htail (h ▸ hcat)
          exact ⟨hfault, buf, id, before, frags, after, hm, hg, hlt⟩
        | ok p =>
          obtain ⟨c₁, new⟩ := p
          have hc₁ : c₁ = { c with allocs := c.allocs + 1 } := by
            cases new with
            | none => exact (concatFrags_none hcat).1
            | some new => exact (concatFrags_some hcat).1
          have hu := (Conn.unuseAll_eq_ok (c := c₁)).mpr
            ⟨hnodup, fun b hb => by rw [hc₁]; exact hfree b hb, rfl⟩
          simp only [hcat, hu] at h
          cases new <;> simp [pure, Except.pure] at h

/-- The faults of the list code. -/
def Fault.inLists : Fault → Bool
  | .assertion | .doubleFree | .useAfterFree | .negativeLength => true
  | .readAssertion | .heapOverflow | .undefined => false

/-- The buffers of a connection between two reads. -/
structure Conn.Owning (c : Conn) : Prop where
  lists : c.Keeps
  held : ∀ buf, c.incomingMsg = some buf → c.Owns buf

/-- A connection between two reads, its lists in order. -/
structure Conn.Sound (c : Conn) : Prop where
  owning : c.Owning
  tabled : c.Tabled
  fault : ∀ f, c.fault = some f → f.inLists = false

theorem Conn.fresh_owning (isAuth : Bool) : (Conn.fresh isAuth).Owning :=
  ⟨Kept.empty 0, fun _ h => by cases h⟩

theorem Conn.fresh_sound (isAuth : Bool) : (Conn.fresh isAuth).Sound :=
  ⟨Conn.fresh_owning isAuth, Table.empty, fun _ h => by cases h⟩

theorem Conn.Owning.takeBuf (h : c.Owning) : c.takeBuf.1.Keeps ∧ c.takeBuf.1.Owns c.takeBuf.2 := by
  unfold Conn.takeBuf
  cases hm : c.incomingMsg with
  | some buf => exact ⟨h.lists, h.held buf hm⟩
  | none => exact ⟨h.lists.grow, h.lists.newborn⟩

theorem Conn.owns_store (ho : c.Owns buf) (bytes : List UInt8) : c.Owns (buf.store bytes) := by
  rw [Conn.Owns, RecvBuffer.store_id]
  exact ho

theorem completed_owns {r : ReadResult} (ho : c.takeBuf.1.Owns c.takeBuf.2)
    (hb : completed env c r = some buf) : c.takeBuf.1.Owns buf := by
  obtain ⟨bytes, -, -, -, hd⟩ := completed_some hb
  rw [Conn.Owns, RecvBuffer.demarshal_id hd]
  exact Conn.owns_store ho bytes

theorem Conn.Owning.msgError (hk : c.Keeps) (ho : c.Owns buf) (h : c.msgError buf = .ok c') :
    c'.Owning := by
  obtain ⟨-, rfl⟩ := Conn.msgError_eq_ok.mp h
  exact ⟨Kept.release hk ho, fun _ h => by cases h⟩

theorem Conn.Owning.dispatch (hk : c.Keeps) (ho : c.Owns buf) (h : dispatch env c buf = .ok c') :
    c'.Owning := by
  obtain ⟨-, rfl⟩ := dispatch_eq_ok.mp h
  exact ⟨Kept.release hk ho, fun _ h => by cases h⟩

/-- The fragment code touches the lists, the buffers and the allocator only. -/
theorem FragCase.frame {error : Bool} (h : FragCase env c buf₁ (error, buf₂, c₁)) :
    ∃ frags allocs gone, c.allocs ≤ allocs ∧
      c₁ = { c with incomingFrags := frags, allocs := allocs, gone := gone } := by
  cases h with
  | badType | orphan | opened | joined => exact ⟨_, _, _, Nat.le_refl _, rfl⟩
  | whole hm hg htype hlimit hmore hlast hcat hfree =>
    obtain ⟨rfl, -⟩ := concatFrags_some hcat
    obtain ⟨-, -, rfl⟩ := Conn.unuseAll_eq_ok.mp hfree
    exact ⟨_, _, _, Nat.le_succ _, rfl⟩
  | noMemory hm hg htype hlimit hmore hlast hcat hfree =>
    obtain ⟨rfl, -⟩ := concatFrags_none hcat
    obtain ⟨-, -, rfl⟩ := Conn.unuseAll_eq_ok.mp hfree
    exact ⟨_, _, _, Nat.le_succ _, rfl⟩

theorem FragCase.fault {error : Bool} (h : FragCase env c buf₁ (error, buf₂, c₁)) :
    c₁.fault = c.fault := by
  obtain ⟨frags, allocs, gone, -, rfl⟩ := h.frame
  rfl

/-- What a complete body does to the buffers. -/
theorem BodyCase.owning {bytes : List UInt8} (h : c.Owning)
    (hcase : BodyCase env c.takeBuf.1 (c.takeBuf.2.store bytes) c') : c'.Owning := by
  obtain ⟨hk, ho⟩ := h.takeBuf
  have hstored := Conn.owns_store ho bytes
  have hdemarshal : ∀ {buf}, (c.takeBuf.2.store bytes).readied.demarshal env.host = .ok buf →
      c.takeBuf.1.Owns buf := by
    intro buf hd
    rw [Conn.Owns, RecvBuffer.demarshal_id hd]
    exact hstored
  cases hcase with
  | refused hid hwhy hm =>
    refine Conn.Owning.msgError hk ?_ hm
    rw [Conn.Owns, hid]
    exact hstored
  | plain hle hd hmore htype hdis => exact Conn.Owning.dispatch hk (hdemarshal hd) hdis
  | fragError hle hd hwhy hcase hm =>
    obtain ⟨hk', ho'⟩ := hcase.kept hk (hdemarshal hd)
    exact Conn.Owning.msgError hk' (ho' (.inl rfl)) hm
  | held hle hd hmore hcase => exact ⟨(hcase.kept hk (hdemarshal hd)).1, fun _ he => by cases he⟩
  | reassembled hle hd hmore htype hcase hdis =>
    obtain ⟨hk', ho'⟩ := hcase.kept hk (hdemarshal hd)
    exact Conn.Owning.dispatch hk' (ho' (.inr hmore)) hdis

/-- Whatever a peer sends, every buffer the connection still refers to is alive, and it
refers to it once. -/
theorem round_owning {r : ReadResult} (h : c.Owning) : (round env c r).Owning := by
  obtain ⟨hk, ho⟩ := h.takeBuf
  have hround := round_cases env c r
  generalize round env c r = c' at hround ⊢
  cases hround with
  | dead hd => exact h
  | waits hd hb =>
    refine ⟨hk, ?_⟩
    rintro buf ⟨⟩
    exact ho
  | stored hd hlen =>
    refine ⟨hk, ?_⟩
    rintro buf ⟨⟩
    exact Conn.owns_store ho _
  | hungUp hd hm => exact Conn.Owning.msgError hk ho hm
  | @header bytes _ _ hd hne hlen hs hcase =>
    have hown := Conn.owns_store ho bytes
    cases hcase with
    | refused hc hm =>
      rcases hc with rfl | rfl
      · exact Conn.Owning.msgError hk hown hm
      · obtain ⟨-, rfl⟩ := Conn.msgError_eq_ok.mp hm
        exact ⟨Kept.release hk hown, fun _ h => by cases h⟩
    | reading hp hl hpos =>
      refine ⟨hk, ?_⟩
      rintro buf ⟨⟩
      exact hown
    | empty hp h0 hd =>
      obtain ⟨-, rfl⟩ := dispatch_eq_ok.mp hd
      exact ⟨Kept.release hk hown, fun _ h => by cases h⟩
  | body hd hne hlen hs hcase => exact hcase.owning h
  | faulted hd hcase =>
    refine ⟨hk, ?_⟩
    intro buf hb
    rw [show c.takeBuf.1.incomingMsg = none from Conn.takeBuf_incomingMsg c] at hb
    cases hb

/-- What a complete body does to the lists. -/
theorem BodyCase.tabled {bytes : List UInt8} (ht : c.Tabled) (hframed : c.Framed env)
    (hc : orderly env c (.data bytes))
    (hcomp : ∀ buf, (c.takeBuf.2.store bytes).readied.demarshal env.host = .ok buf →
      completed env c (.data bytes) = some buf)
    (hcase : BodyCase env c.takeBuf.1 (c.takeBuf.2.store bytes) c') :
    c'.Tabled ∧ c'.fault = c.fault := by
  have htake : c.takeBuf.1.Tabled := by
    rw [Conn.Tabled, Conn.takeBuf_incomingFrags]
    exact ht
  have hfrag : ∀ {buf buf₂ c₁ error}, (c.takeBuf.2.store bytes).readied.demarshal env.host =
      .ok buf → buf.fragmented = true → FragCase env c.takeBuf.1 buf (error, buf₂, c₁) →
      c₁.Tabled ∧ c₁.fault = c.fault := by
    intro buf buf₂ c₁ error hd hf hcase
    have hb := hcomp _ hd
    refine ⟨hcase.tabled htake ?_ (orderly_apply hc hb hf).takeBuf, ?_⟩
    · rw [Conn.takeBuf_isAuth]
      exact completed_arrived hframed hb
    · rw [hcase.fault, Conn.takeBuf_fault]
  cases hcase with
  | refused hid hwhy hm =>
    obtain ⟨-, rfl⟩ := Conn.msgError_eq_ok.mp hm
    exact ⟨htake, Conn.takeBuf_fault c⟩
  | plain hle hd hmore htype hdis =>
    obtain ⟨-, rfl⟩ := dispatch_eq_ok.mp hdis
    exact ⟨htake, Conn.takeBuf_fault c⟩
  | @fragError buf₁ _ _ _ hle hd hwhy hcase hm =>
    have hf : buf₁.fragmented = true := by
      rcases hwhy with he | he <;> simp [RecvBuffer.fragmented, he]
    have hlists := hfrag hd hf hcase
    obtain ⟨-, rfl⟩ := Conn.msgError_eq_ok.mp hm
    exact hlists
  | held hle hd hmore hcase =>
    have hlists := hfrag hd (by simp [RecvBuffer.fragmented, hmore]) hcase
    exact hlists
  | reassembled hle hd hmore htype hcase hdis =>
    have hlists := hfrag hd (by simp [RecvBuffer.fragmented, htype]) hcase
    obtain ⟨-, rfl⟩ := dispatch_eq_ok.mp hdis
    exact hlists

/-- What can still end the process when the lists are kept in order. -/
theorem FaultCase.cause {r : ReadResult} {fault : Fault} (h : c.Sound)
    (hframed : c.Framed env) (hc : orderly env c r) (hcase : FaultCase env c r fault) :
    (fault = .readAssertion ∧ 2^31 ≤ c.takeBuf.2.leftToRead) ∨
    (fault = .undefined ∧ ∃ bytes, r = .data bytes ∧
      (c.takeBuf.2.store bytes).readied.demarshal env.host = .error .undefined) ∨
    (fault = .heapOverflow ∧ ∃ buf, completed env c r = some buf ∧ buf.fragmented = true ∧
      c.takeBuf.1.Overflows env buf) := by
  obtain ⟨hk, ho⟩ := h.owning.takeBuf
  have ht : c.takeBuf.1.Tabled := by
    rw [Conn.Tabled, Conn.takeBuf_incomingFrags]
    exact h.tabled
  have harr : ∀ buf, completed env c r = some buf → buf.Arrived env c.takeBuf.1.isAuth := by
    rw [Conn.takeBuf_isAuth]
    exact fun buf hb => completed_arrived hframed hb
  cases hcase with
  | tooLong hi => exact .inl ⟨rfl, hi⟩
  | undefined hr hd => exact .inr (.inl ⟨rfl, _, hr, hd⟩)
  | badState hh hb =>
    rcases hframed.takeBuf with hr | hr
    · exact absurd hr.state hh
    · exact absurd hr.state hb
  | freed hg => exact absurd hg ho.live
  | lists hb hf he =>
    have hord := (orderly_apply hc hb hf).takeBuf
    obtain ⟨rfl, hover⟩ := handleFragmented_error hk ht (completed_owns ho hb) (harr _ hb) hord hf he
    exact .inr (.inr ⟨rfl, _, hb, hf, hover⟩)
  | behindLists hb hf hcase hheld hg =>
    obtain ⟨-, ho'⟩ := hcase.kept hk (completed_owns ho hb)
    exact absurd hg (ho' hheld).live

theorem FaultCase.notInLists {r : ReadResult} {fault : Fault} (h : c.Sound)
    (hframed : c.Framed env) (hc : orderly env c r) (hcase : FaultCase env c r fault) :
    fault.inLists = false := by
  rcases hcase.cause h hframed hc with ⟨rfl, -⟩ | ⟨rfl, -⟩ | ⟨rfl, -⟩ <;> rfl

/-- One read keeps the lists in order, if the message it completes does. -/
theorem round_sound {r : ReadResult} (h : c.Sound) (hframed : c.Framed env)
    (hc : orderly env c r) : (round env c r).Sound := by
  have hown : (round env c r).Owning := round_owning h.owning
  have ht : c.takeBuf.1.Tabled := by
    rw [Conn.Tabled, Conn.takeBuf_incomingFrags]
    exact h.tabled
  have hfault : ∀ f, c.takeBuf.1.fault = some f → f.inLists = false := by
    rw [Conn.takeBuf_fault]
    exact h.fault
  have hround := round_cases env c r
  generalize round env c r = c' at hround hown ⊢
  cases hround with
  | dead hd => exact h
  | waits hd hb => exact ⟨hown, ht, hfault⟩
  | stored hd hlen => exact ⟨hown, ht, hfault⟩
  | hungUp hd hm =>
    obtain ⟨-, rfl⟩ := Conn.msgError_eq_ok.mp hm
    exact ⟨hown, ht, hfault⟩
  | @header bytes _ _ hd hne hlen hs hcase =>
    cases hcase with
    | refused hc hm =>
      obtain ⟨-, rfl⟩ := Conn.msgError_eq_ok.mp hm
      rcases hc with rfl | rfl <;> exact ⟨hown, ht, hfault⟩
    | reading hp hl hpos => exact ⟨hown, ht, hfault⟩
    | empty hp h0 hd =>
      obtain ⟨-, rfl⟩ := dispatch_eq_ok.mp hd
      exact ⟨hown, ht, hfault⟩
  | body hd hne hlen hs hcase =>
    obtain ⟨ht', hf'⟩ := hcase.tabled h.tabled hframed hc (fun _ => completed_eq hd hne hlen hs)
    exact ⟨hown, ht', hf' ▸ h.fault⟩
  | faulted hd hcase =>
    refine ⟨hown, ht, ?_⟩
    rintro f ⟨⟩
    exact hcase.notInLists h hframed hc

/-- The table of the fragment lists is as it should be. -/
structure Conn.FragTable (c : Conn) : Prop where
  heads : ∀ l ∈ c.incomingFrags, l.head.header.messageType ≠ .fragment
  distinct : (c.incomingFrags.map (·.head.requestId)).Nodup
  once : ((listed c.incomingFrags).map (·.id)).Nodup
  alive : ∀ buf ∈ listed c.incomingFrags, buf.id ∉ c.gone
  lengths : ∀ l ∈ c.incomingFrags, ∀ buf ∈ l.tail, buf.Joined
  fault : ∀ f, c.fault = some f → f.inLists = false

/-- In every run that keeps the lists in order the table is as it should be after every
read, whatever the peer sends. -/
theorem incomingFrags_fragTable (env : Env) (isAuth : Bool) (rs : List ReadResult)
    (h : Meets (round env) (orderly env) (.fresh isAuth) rs) :
    Always (round env) Conn.FragTable (.fresh isAuth) rs := by
  have hsound : Always (round env) (fun c => c.Sound ∧ c.Framed env) (.fresh isAuth) rs :=
    h.always (fun c r hs hc => ⟨round_sound hs.1 hs.2 hc, round_framed hs.2⟩)
      ⟨Conn.fresh_sound isAuth, Conn.fresh_framed isAuth⟩
  refine hsound.imp fun c ⟨hs, _⟩ => ?_
  exact ⟨hs.tabled.heads, hs.tabled.distinct, hs.owning.lists.once,
    fun buf hb => (hs.owning.lists.alive buf hb).2, hs.tabled.joined, hs.fault⟩

/-- The reads that bring a message: its header, and its body if it has one. -/
def readMessage (header : MsgHeader) (body : List UInt8) : List ReadResult :=
  .data header.encode :: if body = [] then [] else [.data body]

def readMessages (messages : List (MsgHeader × List UInt8)) : List ReadResult :=
  messages.flatMap fun (header, body) => readMessage header body

/-- A locate reply of GIOP 1.2 in two parts. -/
theorem incomingFrags_fragTable_two :
    let env : Env := ⟨.little, 1000, fun _ => .moved, fun _ => false⟩
    let rs := readMessages [(⟨.v1_2, 3, .locateReply, 8⟩, [7, 0, 0, 0, 0, 0, 0, 0]),
      (⟨.v1_2, 1, .fragment, 8⟩, [7, 0, 0, 0, 1, 2, 3, 4])]
    Always (round env) Conn.FragTable (.fresh false) rs :=
  incomingFrags_fragTable _ false _ (by decide)

/-- A fragment that belongs to nothing opens a list, and the next one trips over it. -/
theorem orphanFragments_assertion :
    let env : Env := ⟨.little, 1000, fun _ => .moved, fun _ => false⟩
    let rs := readMessages [(⟨.v1_2, 3, .fragment, 4⟩, [0, 0, 0, 0]),
      (⟨.v1_2, 1, .fragment, 4⟩, [0, 0, 0, 0])]
    (run (round env) (.fresh false) rs).fault = some .assertion ∧
      ¬ Always (round env) Conn.FragTable (.fresh false) rs := by
  intro env rs
  have hfault : (run (round env) (.fresh false) rs).fault = some .assertion := by decide
  exact ⟨hfault, fun h => by simpa [Fault.inLists] using h.last.fault _ hfault⟩

end

end ORBit2
