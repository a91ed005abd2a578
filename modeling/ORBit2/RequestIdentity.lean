import ORBit2.CursorSteps
import ORBit2.RecvCases

/-! The object key and the operation of a request that has been accepted: where they are, and when
they can be used. -/

set_option autoImplicit false

namespace ORBit2
open Words

/-- Where the operation of a request begins. -/
def RecvCursor.operationAt (c : RecvCursor) : Version → Nat
  | .v1_2 => if c.wordAt 2 20 = 0 then alignUp (28 + c.wordAt 4 24) 4 + 4 else 28
  | _ =>
      match demarshalValue serviceContextList c with
      | .error _ => 0
      | .ok (_, c') =>
          let p := alignUp c'.cur 4
          alignUp (p + 12 + c.wordAt 4 (p + 8)) 4 + 4

/-- The discriminator of the target is `GIOP_KeyAddr`, and a zero byte follows the beginning of the
operation in the message. -/
def RecvCursor.Identifies (c : RecvCursor) (header : MsgHeader) : Prop :=
  (header.version = .v1_2 →
    c.wordAt 2 (if header.messageType = .request then 20 else 16) = 0) ∧
    (header.messageType = .request → 0 ∈ c.data.drop (c.operationAt header.version))

/-- `giop_recv_buffer_get_objkey` and `giop_recv_buffer_get_opname` can be used: the key lies in the
message, and so does the operation with its zero. -/
structure RecvBuffer.Identified (buf : RecvBuffer) : Prop where
  key : ∃ key, buf.objkey = some key ∧ key.length = buf.decoded.objectKey.length ∧
    12 ≤ buf.decoded.objectKey.offset ∧
    buf.decoded.objectKey.offset + key.length ≤ buf.data.length
  name : buf.header.messageType = .request → ∃ offset name, buf.decoded.operation = some offset ∧
    buf.opname = some name ∧ buf.data[offset + name.length]? = some 0

/-- A word of four bytes under 2^24 has a zero among them. -/
theorem zero_mem_of_join {e : Endian} {bs : List UInt8} (hl : bs.length = 4)
    (h : e.join bs < 2^24) : 0 ∈ bs := by
  match bs, hl with
  | [a, b, c, d], _ =>
    by_contra hz
    simp only [List.mem_cons, List.not_mem_nil, or_false, not_or] at hz
    obtain ⟨ha, hb, hc, hd⟩ := hz
    have hpos : ∀ x : UInt8, 0 ≠ x → 1 ≤ x.toNat := by
      intro x hx
      rcases Nat.eq_zero_or_pos x.toNat with h0 | h0
      · exact absurd (UInt8.toNat_inj.mp (by simpa using h0)).symm hx
      · exact h0
    have ha' := hpos a ha
    have hd' := hpos d hd
    cases e <;> simp only [Endian.join, List.reverse_cons, List.reverse_nil, List.nil_append,
      List.cons_append, joinLE] at h <;> omega

theorem RecvCursor.wordAt_eq {c : RecvCursor} {p : Nat} (h : p + 4 ≤ c.data.length) :
    c.wordAt 4 p = c.sender.join ((c.data.drop p).take 4) := by
  have hl : ((c.data.drop p).take 4).length = 4 := by
    rw [List.length_take, List.length_drop]
    omega
  unfold RecvCursor.wordAt
  simp only
  split
  · rename_i he
    rw [he]
  · rename_i hne
    have hs := swapWord_join c.host ((c.data.drop p).take 4)
    rw [hl] at hs
    rw [hs, ← Endian.eq_flip_of_ne (fun he => hne he.symm)]

/-- A small word at `p` leaves a zero behind every earlier place. -/
theorem RecvCursor.zero_of_wordAt {c : RecvCursor} {p q : Nat} (hq : q ≤ p)
    (h : p + 4 ≤ c.data.length) (hw : c.wordAt 4 p < 2^24) : 0 ∈ c.data.drop q := by
  rw [RecvCursor.wordAt_eq h] at hw
  have hl : ((c.data.drop p).take 4).length = 4 := by
    rw [List.length_take, List.length_drop]
    omega
  have hz := List.mem_of_mem_take (zero_mem_of_join hl hw)
  obtain ⟨k, rfl⟩ := Nat.exists_eq_add_of_le hq
  rw [← List.drop_drop] at hz
  exact List.mem_of_mem_drop hz

/-- The step goes on by `n` bytes at least, and not past the end. -/
def Dec.Takes {α : Type} (n : Nat) (m : Dec α) : Prop :=
  ∀ c a c', m c = .ok (a, c') → c.cur ≤ c.data.length →
    c.cur + n ≤ c'.cur ∧ c'.cur ≤ c'.data.length

namespace Dec.Takes
variable {α β : Type} {m : Dec α} {n k : Nat}

theorem pure (a : α) : Takes 0 (Pure.pure a : Dec α) := by
  intro c a' c' h hle
  cases h
  exact ⟨le_rfl, hle⟩

theorem stop (e : Stop) : Takes n (Dec.stop e : Dec α) := by
  intro c a c' h
  cases h

theorem bind {f : α → Dec β} (hm : Takes n m) (hf : ∀ a, Takes k (f a)) : Takes (n + k) (m >>= f) := by
  intro c b c'' h hle
  obtain ⟨a, c', hc, h⟩ := Dec.bind_eq_ok.mp h
  obtain ⟨hn, hle'⟩ := hm c a c' hc hle
  obtain ⟨hk, hle''⟩ := hf a c' b c'' h hle'
  exact ⟨by omega, hle''⟩

theorem mono (hm : Takes n m) (h : k ≤ n) : Takes k m := by
  intro c a c' hc hle
  obtain ⟨hn, hle'⟩ := hm c a c' hc hle
  exact ⟨by omega, hle'⟩

theorem alignedWord {w : Nat} (hw : 0 < w) : Takes w (Dec.alignedWord w) := by
  intro c a c' h hle
  simp only [Dec.alignedWord, Dec.bind_eq_ok, Dec.align_eq_ok, Dec.need_eq_ok, Dec.peek_eq_ok,
    Dec.advance_eq_ok, Dec.pure_apply, Except.ok.injEq, Prod.mk.injEq] at h
  obtain ⟨_, _, rfl, _, _, ⟨hn, rfl⟩, _, _, ⟨-, -, rfl⟩, _, _, rfl, -, rfl⟩ := h
  have ha := le_alignUp (c.base + c.cur) hw
  constructor
  · show c.cur + w ≤ alignUp (c.base + c.cur) w - c.base + w
    omega
  · exact hn

theorem octets (n : Nat) : Takes n (Dec.octets n) := by
  intro c a c' h hle
  simp only [Dec.octets, Dec.bind_eq_ok, Dec.need_eq_ok, Dec.advance_eq_ok, Dec.pure_apply,
    Except.ok.injEq, Prod.mk.injEq] at h
  obtain ⟨_, c₀, ⟨hn, h0⟩, _, c₁, hb, _, _, rfl, -, rfl⟩ := h
  subst h0
  unfold Dec.peekBytes at hb
  split at hb
  · cases hb
  · cases hb
    exact ⟨le_rfl, hn⟩

theorem grow (length : Nat) (b : GrowBuffer) : Takes 0 (b.grow length) := by
  unfold GrowBuffer.grow
  simp only
  split
  · split
    · exact Takes.stop _
    · exact Takes.pure _
  · exact Takes.pure _

theorem store (v : Value) (b : GrowBuffer) : Takes 0 (b.store v) := by
  unfold GrowBuffer.store
  split
  · exact Takes.pure _
  · exact Takes.stop _

/-- So many elements take so many times what one takes. -/
theorem growLoop {element : Dec Value} (h : Takes n element) (length : Nat) (k : Nat)
    (b : GrowBuffer) : Takes (n * k) (growLoop element length k b) := by
  induction k generalizing b with
  | zero => exact Takes.pure _
  | succ k ih =>
    refine mono ((grow length b).bind fun b => h.bind fun v => (store v b).bind fun b => ih b) ?_
    rw [Nat.mul_succ]
    omega

end Dec.Takes

/-- A service context has its id and the length of its data. -/
theorem takes_serviceContext :
    Dec.Takes 8 (demarshalValue (.struct [.alias (.basic .ulong), .sequence (.basic .octet)])) := by
  have hid : Dec.Takes 4 (demarshalValue (.alias (.basic .ulong))) := by
    rw [demarshalValue, demarshalValue, if_neg (by decide)]
    exact (Dec.Takes.alignedWord (show 0 < 4 by decide)).bind fun n => Dec.Takes.pure _
  have hdata : Dec.Takes 4 (demarshalValue (.sequence (.basic .octet))) := by
    rw [demarshalValue]
    refine (Dec.Takes.alignedWord (show 0 < 4 by decide)).bind (k := 0) fun length => ?_
    split
    · exact Dec.Takes.pure _
    · rw [if_pos (show (TypeCode.basic .octet).isOctet = true from rfl)]
      exact ((Dec.Takes.octets length).bind fun bs => Dec.Takes.pure _).mono (Nat.zero_le _)
  rw [demarshalValue, demarshalMembers, demarshalMembers, demarshalMembers]
  exact (hid.bind fun v => (hdata.bind fun v => Dec.Takes.pure _).bind fun vs =>
    Dec.Takes.pure _).bind fun vs => Dec.Takes.pure _

/-- Whatever stands before a list of service contexts, its count has a zero byte. -/
theorem zero_behind_contexts {c c' : RecvCursor} {sc : Value} {q : Nat} (hb : c.base = 0)
    (h : demarshalValue serviceContextList c = .ok (sc, c')) (hle : c.cur ≤ c.data.length)
    (hshort : c.data.length < 2^24) (hq : q ≤ c.cur) : 0 ∈ c.data.drop q := by
  obtain ⟨base, data, cur, host, sender⟩ := c
  obtain rfl : base = 0 := hb
  simp only at hle hshort hq ⊢
  rw [serviceContextList, demarshalValue, demarshalValue, Dec.bind_eq_ok] at h
  obtain ⟨count, c₁, hcount, h⟩ := h
  simp only [Dec.alignedWord, Dec.bind_eq_ok, Dec.align_eq_ok, Dec.need_eq_ok, Dec.peek_eq_ok,
    Dec.advance_eq_ok, Dec.pure_apply, Except.ok.injEq, Prod.mk.injEq, Nat.zero_add,
    Nat.sub_zero] at hcount
  obtain ⟨_, _, rfl, _, _, ⟨hin, rfl⟩, _, _, ⟨-, hw, rfl⟩, _, _, rfl, hcount, rfl⟩ := hcount
  have hw : count = RecvCursor.wordAt ⟨0, data, cur, host, sender⟩ 4 (alignUp cur 4) :=
    hcount.symm.trans hw
  have hup := le_alignUp cur (show 0 < 4 by decide)
  refine RecvCursor.zero_of_wordAt (c := ⟨0, data, cur, host, sender⟩) (le_trans hq hup) hin ?_
  rw [← hw]
  split at h
  · rename_i h0
    rw [h0]
    decide
  · rw [if_neg (by decide), Dec.bind_eq_ok] at h
    obtain ⟨vs, c₂, hvs, -⟩ := h
    have hstill := Dec.still_growLoop (Dec.still_demarshalValue _) _ _ _ _ _ _ hvs
    obtain ⟨hmany, hend⟩ := Dec.Takes.growLoop takes_serviceContext _ _ _ _ _ _ hvs hin
    rw [hstill] at hend
    simp only at hmany hend
    omega

/-- The target of a request that has been accepted: a key has been looked for in bounds. -/
structure MsgUnion.Located (u : MsgUnion) (c : RecvCursor) (d : Nat) : Prop where
  addressing : u.addressing = d
  least : d = 0 → 12 ≤ u.objectKey.offset
  inside : d = 0 → u.objectKey.offset + u.objectKey.length ≤ c.data.length

section
variable {c c' : RecvCursor} {u : MsgUnion}

theorem alignUp_12 : alignUp 12 4 = 12 := by decide

theorem alignUp_16 : alignUp 16 2 = 16 := by decide

theorem alignUp_18 : alignUp 18 4 = 20 := by decide

theorem alignUp_20 : alignUp 20 2 = 20 := by decide

theorem alignUp_22 : alignUp 22 4 = 24 := by decide

theorem targetAddress_ok {d : Nat} {key : Span} (hb : c.base = 0)
    (h : demarshalTargetAddress c = .ok ((d, key), c')) :
    d = c.wordAt 2 (alignUp c.cur 2) ∧
      (d = 0 → key = ⟨alignUp (alignUp c.cur 2 + 2) 4 + 4,
          c.wordAt 4 (alignUp (alignUp c.cur 2 + 2) 4)⟩ ∧
        key.offset + key.length ≤ c.data.length ∧
        c' = { c with cur := key.offset + key.length }) ∧
      (d ≠ 0 → c' = { c with cur := alignUp c.cur 2 + 2 }) := by
  obtain ⟨base, data, cur, host, sender⟩ := c
  obtain rfl : base = 0 := hb
  unfold demarshalTargetAddress at h
  simp only [Dec.bind_eq_ok, Dec.align_eq_ok, Dec.need_eq_ok, Dec.word_eq_ok, Nat.zero_add,
    Nat.sub_zero] at h
  obtain ⟨_, _, rfl, _, _, ⟨-, rfl⟩, d', _, ⟨-, hd, rfl⟩, h⟩ := h
  split at h
  · rw [Dec.bind_eq_ok] at h
    obtain ⟨s, _, hs, h⟩ := h
    obtain ⟨hle, rfl, rfl⟩ := (Dec.alignedBytes_eq_ok rfl).mp hs
    simp only [Dec.pure_apply, Except.ok.injEq, Prod.mk.injEq] at h
    obtain ⟨⟨rfl, rfl⟩, rfl⟩ := h
    exact ⟨hd, fun _ => ⟨rfl, hle, rfl⟩, fun hne => absurd rfl hne⟩
  · cases h
  · cases h
  · rename_i hne _ _
    simp only [Dec.pure_apply, Except.ok.injEq, Prod.mk.injEq] at h
    obtain ⟨⟨rfl, rfl⟩, rfl⟩ := h
    exact ⟨hd, fun h0 => absurd h0 hne, fun _ => rfl⟩

theorem request12_located (hb : c.base = 0) (hc : c.cur = 12)
    (h : demarshalRequest12 c = .ok (u, c')) :
    u.Located c (c.wordAt 2 20) ∧ u.operation = some (c.operationAt .v1_2) ∧
      (c.data.length < 2^24 → 0 ∈ c.data.drop (c.operationAt .v1_2)) := by
  obtain ⟨base, data, cur, host, sender⟩ := c
  obtain rfl : base = 0 := hb
  obtain rfl : cur = 12 := hc
  unfold demarshalRequest12 at h
  simp only [Dec.bind_eq_ok, Dec.align_eq_ok, Dec.need_eq_ok, Dec.word_eq_ok, Dec.peek_eq_ok,
    Dec.advance_eq_ok, Nat.zero_add, Nat.sub_zero, alignUp_12] at h
  obtain ⟨_, _, rfl, _, _, ⟨-, rfl⟩, id, _, ⟨-, -, rfl⟩, flags, _, ⟨-, -, rfl⟩, _, _, rfl,
    ⟨d, key⟩, c₁, hkey, operation, c₂, hop, sc, c₃, hsc, _, c₄, -, h⟩ := h
  simp only [Dec.pure_apply, Except.ok.injEq, Prod.mk.injEq] at h
  obtain ⟨rfl, -⟩ := h
  obtain ⟨hd, hzero, hother⟩ := targetAddress_ok rfl hkey
  simp only [alignUp_20, alignUp_22, Nat.reduceAdd] at hd hzero hother
  have hd : d = RecvCursor.wordAt ⟨0, data, 12, host, sender⟩ 2 20 := hd
  by_cases h0 : d = 0
  · obtain ⟨rfl, hle, rfl⟩ := hzero h0
    obtain ⟨hin, rfl, rfl⟩ := (Dec.alignedBytes_eq_ok rfl).mp hop
    have hat : RecvCursor.operationAt ⟨0, data, 12, host, sender⟩ .v1_2 =
        alignUp (28 + RecvCursor.wordAt ⟨0, data, 12, host, sender⟩ 4 24) 4 + 4 := by
      simp only [RecvCursor.operationAt, ← hd, if_pos h0]
    refine ⟨⟨hd, fun _ => show 12 ≤ 28 by decide, fun _ => hle⟩, by rw [hat]; rfl, fun hs => ?_⟩
    rw [hat]
    have hz := zero_behind_contexts rfl hsc hin hs (Nat.le_add_right _ _)
    exact hz
  · rw [hother h0] at hop
    obtain ⟨hin, rfl, rfl⟩ := (Dec.alignedBytes_eq_ok rfl).mp hop
    have hat : RecvCursor.operationAt ⟨0, data, 12, host, sender⟩ .v1_2 = alignUp 22 4 + 4 := by
      simp only [RecvCursor.operationAt, ← hd, if_neg h0, alignUp_22]
    refine ⟨⟨hd, fun hz => absurd (hd.trans hz) h0, fun hz => absurd (hd.trans hz) h0⟩,
      by rw [hat], fun hs => ?_⟩
    rw [hat]
    have hz := zero_behind_contexts rfl hsc hin hs (Nat.le_add_right _ _)
    exact hz

theorem request11_located (hb : c.base = 0) (h : demarshalRequest11 c = .ok (u, c'))
    {version : Version} (hv : version ≠ .v1_2) :
    u.Located c 0 ∧ u.operation = some (c.operationAt version) ∧
      (c.data.length < 2^24 → 0 ∈ c.data.drop (c.operationAt version)) := by
  unfold demarshalRequest11 at h
  rw [Dec.bind_eq_ok] at h
  obtain ⟨sc, c₀, hsc, h⟩ := h
  have hstill := Dec.still_demarshalValue _ c sc c₀ hsc
  obtain ⟨base, data, cur, host, sender⟩ := c
  obtain rfl : base = 0 := hb
  obtain ⟨base₀, data₀, cur₀, host₀, sender₀⟩ := c₀
  cases hstill
  simp only [Dec.bind_eq_ok, Dec.align_eq_ok, Dec.need_eq_ok, Dec.word_eq_ok, Dec.peek_eq_ok,
    Dec.advance_eq_ok, Dec.countedBytes_eq_ok, Nat.zero_add, Nat.sub_zero] at h
  obtain ⟨_, _, rfl, _, _, ⟨-, rfl⟩, id, _, ⟨-, -, rfl⟩, flags, _, ⟨-, -, rfl⟩, _, _, rfl,
    key, _, ⟨hle, rfl, rfl⟩, operation, c₂, hop, principal, c₃, hprin, h⟩ := h
  simp only [Dec.pure_apply, Except.ok.injEq, Prod.mk.injEq] at h
  obtain ⟨rfl, -⟩ := h
  obtain ⟨-, rfl, rfl⟩ := (Dec.alignedBytes_eq_ok rfl).mp hop
  have hat : RecvCursor.operationAt ⟨0, data, cur, host, sender⟩ version =
      alignUp (alignUp cur₀ 4 + 12 +
        RecvCursor.wordAt ⟨0, data, cur, host, sender⟩ 4 (alignUp cur₀ 4 + 8)) 4 + 4 := by
    cases version with
    | v1_2 => exact absurd rfl hv
    | _ => simp only [RecvCursor.operationAt, hsc]
  refine ⟨⟨rfl, fun _ => ?_, fun _ => hle⟩, by rw [hat]; rfl, fun hs => ?_⟩
  · simp only
    omega
  · obtain ⟨hin, -, -⟩ := (Dec.alignedBytes_eq_ok rfl).mp hprin
    rw [hat]
    simp only at hin hs
    refine RecvCursor.zero_of_wordAt (le_trans ?_ (le_alignUp _ (show 0 < 4 by decide)))
      (le_trans (Nat.le_add_right _ _) hin) ?_
    · exact Nat.le_add_right _ _
    · exact lt_of_le_of_lt (le_trans (Nat.le_add_left _ _) hin) hs

theorem locateRequest12_located (hb : c.base = 0) (hc : c.cur = 12)
    (h : demarshalLocateRequest12 c = .ok (u, c')) : u.Located c (c.wordAt 2 16) := by
  obtain ⟨base, data, cur, host, sender⟩ := c
  obtain rfl : base = 0 := hb
  obtain rfl : cur = 12 := hc
  unfold demarshalLocateRequest12 at h
  simp only [Dec.bind_eq_ok, Dec.align_eq_ok, Dec.need_eq_ok, Dec.word_eq_ok, Nat.zero_add,
    Nat.sub_zero, alignUp_12] at h
  obtain ⟨_, _, rfl, _, _, ⟨-, rfl⟩, id, _, ⟨-, -, rfl⟩, ⟨d, key⟩, c₁, hkey, h⟩ := h
  simp only [Dec.pure_apply, Except.ok.injEq, Prod.mk.injEq] at h
  obtain ⟨rfl, -⟩ := h
  obtain ⟨hd, hzero, -⟩ := targetAddress_ok rfl hkey
  simp only [alignUp_16, alignUp_18, Nat.reduceAdd] at hd hzero
  have hd : d = RecvCursor.wordAt ⟨0, data, 12, host, sender⟩ 2 16 := hd
  refine ⟨hd, fun h0 => ?_, fun h0 => (hzero (hd.trans h0)).2.1⟩
  obtain ⟨rfl, -⟩ := hzero (hd.trans h0)
  exact show 12 ≤ 24 by decide

theorem locateRequest11_located (hb : c.base = 0) (hc : c.cur = 12)
    (h : demarshalLocateRequest11 c = .ok (u, c')) : u.Located c 0 := by
  obtain ⟨base, data, cur, host, sender⟩ := c
  obtain rfl : base = 0 := hb
  obtain rfl : cur = 12 := hc
  unfold demarshalLocateRequest11 at h
  simp only [Dec.bind_eq_ok, Dec.align_eq_ok, Dec.need_eq_ok, Dec.word_eq_ok,
    Dec.countedBytes_eq_ok, Nat.zero_add, Nat.sub_zero, alignUp_12] at h
  obtain ⟨_, _, rfl, _, _, ⟨-, rfl⟩, id, _, ⟨-, -, rfl⟩, key, _, ⟨hle, rfl, rfl⟩, h⟩ := h
  simp only [Dec.pure_apply, Except.ok.injEq, Prod.mk.injEq] at h
  obtain ⟨rfl, -⟩ := h
  exact ⟨rfl, fun _ => show 12 ≤ 20 by decide, fun _ => hle⟩

end

/-- The discriminator of the target of an accepted request; before GIOP 1.2 there is only a key. -/
def RecvCursor.addressing (c : RecvCursor) (header : MsgHeader) : Nat :=
  if header.version = .v1_2 then c.wordAt 2 (if header.messageType = .request then 20 else 16)
  else 0

/-- What `giop_recv_buffer_demarshal` has made of a request. -/
theorem demarshal_located {host : Endian} {buf buf' : RecvBuffer}
    (h : buf.readied.demarshal host = .ok buf')
    (ht : buf.header.messageType = .request ∨ buf.header.messageType = .locateRequest) :
    ∃ u c', buf' = { buf.readied with decoded := u, decodedIn := buf.block, cur := c' } ∧
      u.Located (buf.readied.cursor host) ((buf.readied.cursor host).addressing buf.header) ∧
      (buf.header.messageType = .request →
        u.operation = some ((buf.readied.cursor host).operationAt buf.header.version) ∧
        (buf.data.length < 2^24 →
          0 ∈ buf.data.drop ((buf.readied.cursor host).operationAt buf.header.version))) := by
  have hframe : ∀ decode, decodeFunc buf.header.messageType buf.header.version = some decode →
      ∃ u c', decode (buf.readied.cursor host) = .ok (u, c') ∧
        buf' = { buf.readied with decoded := u, decodedIn := buf.block, cur := c'.cur } := by
    intro decode hd
    unfold RecvBuffer.demarshal at h
    rw [show buf.readied.header = buf.header from rfl, hd] at h
    simp only at h
    cases hr : decode (buf.readied.cursor host) with
    | error e =>
      rw [hr] at h
      cases h
    | ok r =>
      obtain ⟨u, c'⟩ := r
      rw [hr] at h
      exact ⟨u, c', rfl, (Except.ok.inj h).symm⟩
  rcases ht with ht | ht
  · by_cases hv : buf.header.version = .v1_2
    · obtain ⟨u, c', hd, rfl⟩ := hframe demarshalRequest12 (by rw [ht, hv]; rfl)
      obtain ⟨hl, hop⟩ := request12_located rfl rfl hd
      refine ⟨u, c'.cur, rfl, ?_, fun _ => by rw [hv]; exact hop⟩
      rw [RecvCursor.addressing, if_pos hv, if_pos ht]
      exact hl
    · obtain ⟨u, c', hd, rfl⟩ := hframe demarshalRequest11 (by
        rw [ht]
        cases hver : buf.header.version <;> first | rfl | exact absurd hver hv)
      obtain ⟨hl, hop⟩ := request11_located rfl hd hv
      refine ⟨u, c'.cur, rfl, ?_, fun _ => hop⟩
      rw [RecvCursor.addressing, if_neg hv]
      exact hl
  · have hne : buf.header.messageType ≠ .request := by
      rw [ht]
      decide
    by_cases hv : buf.header.version = .v1_2
    · obtain ⟨u, c', hd, rfl⟩ := hframe demarshalLocateRequest12 (by rw [ht, hv]; rfl)
      refine ⟨u, c'.cur, rfl, ?_, fun hr => absurd hr hne⟩
      rw [RecvCursor.addressing, if_pos hv, if_neg hne]
      exact locateRequest12_located rfl rfl hd
    · obtain ⟨u, c', hd, rfl⟩ := hframe demarshalLocateRequest11 (by
        rw [ht]
        cases hver : buf.header.version <;> first | rfl | exact absurd hver hv)
      refine ⟨u, c'.cur, rfl, ?_, fun hr => absurd hr hne⟩
      rw [RecvCursor.addressing, if_neg hv]
      exact locateRequest11_located rfl rfl hd

/-- A C string that starts in the bytes has its zero in them. -/
theorem zero_behind {data : List UInt8} {offset : Nat} :
    data[offset + ((data.drop offset).takeWhile (· ≠ 0)).length]? = some 0 ↔
      0 ∈ data.drop offset := by
  rw [← List.getElem?_drop]
  generalize data.drop offset = rest
  induction rest with
  | nil => simp
  | cons x rest ih =>
    by_cases hx : x = 0
    · simp [hx]
    · rw [List.takeWhile_cons_of_pos (by simpa using hx), List.length_cons,
        List.getElem?_cons_succ, ih]
      simp [Ne.symm hx]

/-- An accepted request can be used if and only if its target is a key and its operation has an end
in the message. -/
theorem identified_iff_cursor {host : Endian} {buf buf' : RecvBuffer}
    (h : buf.readied.demarshal host = .ok buf')
    (ht : buf.header.messageType = .request ∨ buf.header.messageType = .locateRequest) :
    buf'.Identified ↔ (buf.readied.cursor host).Identifies buf.header := by
  obtain ⟨u, cur, rfl, hl, hop⟩ := demarshal_located h ht
  have hdata : RecvBuffer.data { buf.readied with decoded := u, decodedIn := buf.block, cur := cur } =
      (buf.readied.cursor host).data := rfl
  constructor
  · rintro ⟨⟨key, hkey, -⟩, hname⟩
    refine ⟨fun hv => ?_, fun hr => ?_⟩
    · have haddr : u.addressing = 0 := by
        by_contra hne
        simp only [RecvBuffer.objkey, if_pos hne] at hkey
        cases hkey
      rw [hl.addressing, RecvCursor.addressing, if_pos hv] at haddr
      exact haddr
    · obtain ⟨offset, name, ho, hn, hz⟩ := hname hr
      have ho' : u.operation = some offset := ho
      cases (hop hr).1.symm.trans ho'
      simp only [RecvBuffer.opname, ho', RecvBuffer.deref] at hn
      rw [if_pos (show buf.block = buf.readied.block from rfl)] at hn
      cases hn
      exact zero_behind.mp hz
  · rintro ⟨haddr, hzero⟩
    have h0 : (buf.readied.cursor host).addressing buf.header = 0 := by
      rw [RecvCursor.addressing]
      split
      · rename_i hv
        exact haddr hv
      · rfl
    have hinside := hl.inside h0
    have hlen : (((buf.readied.cursor host).data.drop u.objectKey.offset).take
        u.objectKey.length).length = u.objectKey.length := by
      rw [List.length_take, List.length_drop]
      omega
    refine ⟨⟨_, ?_, hlen, hl.least h0, ?_⟩, fun hr => ?_⟩
    · simp only [RecvBuffer.objkey, hl.addressing, h0, ne_eq, not_true_eq_false, if_false,
        RecvBuffer.deref]
      exact if_pos rfl
    · rw [hlen]
      exact hinside
    · refine ⟨_, _, (hop hr).1, ?_, zero_behind.mpr (hzero hr)⟩
      simp only [RecvBuffer.opname, (hop hr).1, RecvBuffer.deref]
      exact if_pos rfl

/-- An accepted request can be used if and only if its target is a key and its operation has an end
in the message; a message of less than 2^24 bytes has that end. -/
theorem identified_iff (host : Endian) (buf buf' : RecvBuffer)
    (h : buf.readied.demarshal host = .ok buf')
    (ht : buf.header.messageType = .request ∨ buf.header.messageType = .locateRequest) :
    (buf'.Identified ↔ (buf.readied.cursor host).Identifies buf.header) ∧
      (buf.data.length < 2^24 → (buf'.Identified ↔
        (buf.header.version = .v1_2 → (buf.readied.cursor host).wordAt 2
          (if buf.header.messageType = .request then 20 else 16) = 0))) := by
  have hiff := identified_iff_cursor h ht
  refine ⟨hiff, fun hshort => hiff.trans ⟨fun hi => hi.1, fun haddr => ⟨haddr, fun hr => ?_⟩⟩⟩
  obtain ⟨u, cur, -, -, hop⟩ := demarshal_located h ht
  exact (hop hr).2 hshort

/-- A message of GIOP 1.2 whose body has been read. -/
def RecvBuffer.arrived (messageType : MsgType) (body : List UInt8) : RecvBuffer :=
  { RecvBuffer.useBuf 0 with
    header := ⟨.v1_2, 1, messageType, body.length⟩, block := some 0, body := body,
    cur := 12 + body.length, stop := 12 + body.length, state := .readingBody, leftToRead := 0,
    freeBody := true }

/-- The request 7 for the operation `ping` of the key 5, 6. -/
def pingRequest : RecvBuffer :=
  .arrived .request
    [7, 0, 0, 0, 3, 0, 0, 0, 0, 0, 0, 0, 2, 0, 0, 0, 5, 6, 0, 0, 5, 0, 0, 0, 112, 105, 110, 103, 0, 0,
      0, 0, 0, 0, 0, 0]

theorem pingRequest_identified :
    ∃ buf', pingRequest.readied.demarshal .little = .ok buf' ∧ buf'.Identified := by
  have hok : (pingRequest.readied.demarshal .little).toBool = true := by decide_cbv
  have hshort : pingRequest.data.length < 2^24 := by
    rw [show pingRequest.data.length = 48 from rfl]
    omega
  have hkey : (pingRequest.readied.cursor .little).wordAt 2 20 = 0 := by decide_cbv
  cases h : pingRequest.readied.demarshal .little with
  | error e =>
    rw [h] at hok
    cases hok
  | ok buf' =>
    exact ⟨buf', rfl, ((identified_iff .little pingRequest buf' h (Or.inl rfl)).2 hshort).mpr
      fun _ => hkey⟩

/-- A locate request for a target of the kind 3. -/
def targetlessLocate : RecvBuffer := .arrived .locateRequest [7, 0, 0, 0, 3, 0]

/-- It is accepted, and has no key. -/
theorem targetlessLocate_unidentified :
    ¬ ∀ (host : Endian) (buf buf' : RecvBuffer), buf.readied.demarshal host = .ok buf' →
      (buf.header.messageType = .request ∨ buf.header.messageType = .locateRequest) →
      buf'.Identified := by
  intro h
  obtain ⟨key, hkey, -⟩ := (h .little targetlessLocate _ rfl (Or.inr rfl)).key
  cases hkey

end ORBit2
