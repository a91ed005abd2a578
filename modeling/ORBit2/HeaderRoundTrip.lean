import ORBit2.SendHeader
import ORBit2.ValueRoundTrip

/-! What `giop_recv_buffer_demarshal` makes of the headers that the send functions
build, for every version and both byte orders. -/

set_option autoImplicit false

namespace ORBit2
open Words

section
variable {f : Frame} {b b' : PlainBuffer}

theorem Frame.advance_to {n : Nat} (h : b'.pos = b.pos + n) :
    Dec.advance n (f.at b) = .ok ((), f.at b') := by
  simp [Dec.advance, Frame.at, h]

theorem Frame.need_to {n : Nat} (hw : b'.Within f.data) (h : b.pos + n ≤ b'.pos) :
    Dec.need n (f.at b) = .ok ((), f.at b) := by
  have hp := hw.pos_le
  rw [Dec.need, if_neg (by simp; omega)]

theorem Frame.word_at {w n : Nat} (hn : n < 256 ^ w)
    (hw : (b.append (f.sender.split w n)).Within f.data) :
    Dec.word w (f.at b) = .ok (n, f.at (b.append (f.sender.split w n))) := by
  have hadv : Dec.advance w (f.at b) = .ok ((), f.at (b.append (f.sender.split w n))) :=
    f.advance_to (by simp)
  rw [Dec.word, Dec.bind_ok (f.peek_at hn hw), Dec.bind_ok hadv, Dec.pure_apply]

/-- A counted byte string, read through the pointer that the decoder keeps. -/
theorem Frame.countedBytes_at {mem : List UInt8} (hn : mem.length < 2^32)
    (hw : ((b.append (f.sender.split 4 mem.length)).append mem).Within f.data) :
    Dec.countedBytes (f.at b) =
      .ok (⟨b.pos + 4, mem.length⟩, f.at ((b.append (f.sender.split 4 mem.length)).append mem)) := by
  have hword := hw.mono (PlainBuffer.grows_append _ _)
  rw [Dec.countedBytes, Dec.bind_ok (f.word_at (by omega) hword), Dec.bind_ok (f.need_at hw)]
  have htell : Dec.tell (f.at (b.append (f.sender.split 4 mem.length))) =
      .ok (b.pos + 4, f.at (b.append (f.sender.split 4 mem.length))) := by
    simp [Dec.tell]
  rw [Dec.bind_ok htell, Dec.bind_ok (f.advance_at mem), Dec.pure_apply]

end

@[simp] theorem iopServiceContextData_length (host : Endian) :
    (iopServiceContextData host).length = 24 := by
  cases host <;> rfl

/-- The one service context a message of this implementation carries. -/
def codeSets (sender : Endian) : Value :=
  .seq [.struct [.word 1, .seq (((iopServiceContextData sender).drop 12).map
    fun b => .word b.toNat)]]

theorem codeSets_fits (sender : Endian) :
    hasType serviceContextList (codeSets sender) ∧ fits serviceContextList (codeSets sender) := by
  cases sender <;> decide

theorem marshal_codeSets (sender : Endian) :
    marshalValue sender serviceContextList (codeSets sender) =
      some [.align 4, .append (sender.split 4 1), .appendAligned (sender.split 4 1), .align 4,
        .append (sender.split 4 12), .append ((iopServiceContextData sender).drop 12)] := by
  cases sender <;> rfl

/-- The marshalled list is the constant `iop_service_context_data` on its boundary. -/
theorem run_codeSets (sender : Endian) (b : PlainBuffer) :
    b.run sender [.align 4, .append (sender.split 4 1), .appendAligned (sender.split 4 1),
        .align 4, .append (sender.split 4 12), .append ((iopServiceContextData sender).drop 12)] =
      (b.align 4).append (iopServiceContextData sender) := by
  have h : 4 ∣ (b.align 4).pos := b.dvd_align_pos (by decide)
  have h1 : 4 ∣ ((b.align 4).append (sender.split 4 1)).pos := by simpa using h
  have h2 : 4 ∣ (((b.align 4).append (sender.split 4 1)).append (sender.split 4 1)).pos := by
    simpa using h1
  have hdata : sender.split 4 1 ++ (sender.split 4 1 ++ (sender.split 4 12 ++
      (iopServiceContextData sender).drop 12)) = iopServiceContextData sender := by
    cases sender <;> rfl
  simp only [PlainBuffer.run_cons, PlainBuffer.run_nil, PlainBuffer.exec,
    PlainBuffer.appendAligned, Endian.split_length,
    PlainBuffer.align_eq_self _ (by decide) h1, PlainBuffer.align_eq_self _ (by decide) h2]
  simp only [PlainBuffer.append, List.append_assoc, hdata]

theorem Frame.codeSets_at {f : Frame} {b : PlainBuffer}
    (hw : ((b.align 4).append (iopServiceContextData f.sender)).Within f.data) :
    demarshalValue serviceContextList (f.at b) =
      .ok (codeSets f.sender, f.at ((b.align 4).append (iopServiceContextData f.sender))) := by
  obtain ⟨hty, hfit⟩ := codeSets_fits f.sender
  obtain ⟨ops, he, ha⟩ := value_agrees f.sender _ _ hty
  rw [marshal_codeSets, Option.some.injEq] at he
  subst he
  have ha := ha f b rfl (by rwa [run_codeSets])
  rwa [if_pos hfit, run_codeSets] at ha

theorem split_one (e : Endian) (x : UInt8) : e.split 1 x.toNat = [x] := by
  cases e <;> simp [Endian.split, splitLE]

theorem PlainBuffer.append_nil (b : PlainBuffer) : b.append [] = b := by
  simp [PlainBuffer.append]

theorem PlainBuffer.append_append (b : PlainBuffer) (mem mem' : List UInt8) :
    (b.append mem).append mem' = b.append (mem ++ mem') := by
  simp [PlainBuffer.append]

/-- The stub's own padding of the operation is what `align` would put there. -/
theorem append_operationVec (host : Endian) {b : PlainBuffer} (h : 4 ∣ b.pos) (name : List UInt8) :
    b.append (operationVec host name) =
      ((b.append (host.split 4 (name ++ [0]).length)).append (name ++ [0])).align 4 := by
  have hlen : ((b.append (host.split 4 (name ++ [0]).length)).append (name ++ [0])).pos =
      (host.split 4 (name.length+1) ++ name ++ [0]).length + b.pos := by
    simp; omega
  have hpad : alignUp ((host.split 4 (name.length+1) ++ name ++ [0]).length + b.pos) 4 -
      ((host.split 4 (name.length+1) ++ name ++ [0]).length + b.pos) =
      alignUp (host.split 4 (name.length+1) ++ name ++ [0]).length 4 -
        (host.split 4 (name.length+1) ++ name ++ [0]).length := by
    rw [alignUp_add_of_dvd (by decide) h]
    omega
  rw [PlainBuffer.align, hlen, hpad, PlainBuffer.append_append, PlainBuffer.append_append,
    operationVec]
  simp

section
variable {f : Frame} {b : PlainBuffer}

/-- A counted byte string at its alignment, as keys, operations and principals are read. -/
theorem Frame.alignedBytes_at {mem : List UInt8} (hn : mem.length < 2^32)
    (hw : ((b.appendAligned (f.sender.split 4 mem.length)).append mem).Within f.data) :
    Dec.alignedBytes (f.at b) =
      .ok (⟨(b.appendAligned (f.sender.split 4 mem.length)).pos, mem.length⟩,
        f.at ((b.appendAligned (f.sender.split 4 mem.length)).append mem)) := by
  simp only [PlainBuffer.appendAligned, Endian.split_length] at hw ⊢
  have hneed : Dec.need 4 (f.at (b.align 4)) = .ok ((), f.at (b.align 4)) :=
    f.need_to hw (by simp)
  rw [Dec.alignedBytes, Dec.bind_ok (f.align_at (by decide)), Dec.bind_ok hneed, f.countedBytes_at hn hw]
  simp

theorem Frame.targetAddress_at {key : List UInt8} (h : 2 ∣ b.pos) (hn : key.length < 2^32)
    (hw : (((b.append (f.sender.split 2 0)).appendAligned
      (f.sender.split 4 key.length)).append key).Within f.data) :
    demarshalTargetAddress (f.at b) =
      .ok ((0, ⟨((b.append (f.sender.split 2 0)).appendAligned
          (f.sender.split 4 key.length)).pos, key.length⟩),
        f.at (((b.append (f.sender.split 2 0)).appendAligned
          (f.sender.split 4 key.length)).append key)) := by
  have hword := (hw.mono (PlainBuffer.grows_append _ _)).mono (PlainBuffer.grows_appendAligned _ _)
  have halign : Dec.align 2 (f.at b) = .ok ((), f.at b) := by
    rw [f.align_at (by decide), PlainBuffer.align_eq_self b (by decide) h]
  have hneed : Dec.need 2 (f.at b) = .ok ((), f.at b) := f.need_to hword (by simp)
  rw [demarshalTargetAddress, Dec.bind_ok halign, Dec.bind_ok hneed,
    Dec.bind_ok (f.word_at (by decide) hword)]
  simp only
  rw [Dec.bind_ok (f.alignedBytes_at hn hw), Dec.pure_apply]

theorem Frame.align_noop {n : Nat} (hn : n ∣ 8) (h : n ∣ b.pos) :
    Dec.align n (f.at b) = .ok ((), f.at b) := by
  rw [f.align_at hn, PlainBuffer.align_eq_self b (Nat.pos_of_dvd_of_pos hn (by decide)) h]

/-- The octet in front of three bytes of padding. -/
theorem Frame.flag_at {x : UInt8} (hw : (b.append [x]).Within f.data) :
    Dec.peek 1 (f.at b) = .ok (x.toNat, f.at b) := by
  have h := split_one f.sender x
  rw [← h] at hw
  exact f.peek_at x.toNat_lt hw

/-- Key and operation are read through the pointers that the decoder kept. -/
theorem Frame.bytes_behind {mem : List UInt8} (hw : (b.append mem).Within f.data) :
    (f.data.drop b.pos).take mem.length = mem := f.take_at hw

theorem Frame.string_behind {s : List UInt8} (hs : ∀ c ∈ s, c ≠ 0)
    (hw : (b.append (s ++ [0])).Within f.data) :
    (f.data.drop b.pos).takeWhile (· ≠ 0) = s := by
  obtain ⟨post, hd⟩ := hw.drop
  rw [hd, List.append_assoc, List.takeWhile_append_of_pos (by simpa using hs)]
  simp

end

/-- What the receiver finds of a message, its pointers read in `data`. -/
def MsgUnion.Recovers (sender : Endian) (version : Version) (data : List UInt8) (u : MsgUnion) :
    Outgoing → Prop
  | .request id resp key op =>
      u.requestId = id ∧
      u.responseFlags = (if version = .v1_2 then if resp ≠ 0 then 3 else 0 else resp.toNat) ∧
      u.addressing = 0 ∧ (data.drop u.objectKey.offset).take u.objectKey.length = key ∧
      u.operation.map (fun offset => (data.drop offset).takeWhile (· ≠ 0)) = some op ∧
      u.serviceContext = codeSets sender
  | .reply id status =>
      u.requestId = id ∧ u.status = status ∧ u.serviceContext = codeSets sender
  | .locateRequest id key =>
      u.requestId = id ∧ u.addressing = 0 ∧
      (data.drop u.objectKey.offset).take u.objectKey.length = key
  | .locateReply id status => u.requestId = id ∧ u.status = status

/-- The operation behind a key, as the reader will meet it. -/
theorem run_operation (host : Endian) (b : PlainBuffer) (op : List UInt8) :
    (b.align 4).append (operationVec host op) =
      ((b.appendAligned (host.split 4 (op ++ [0]).length)).append (op ++ [0])).align 4 := by
  have h : 4 ∣ (b.align 4).pos := b.dvd_align_pos (by decide)
  rw [append_operationVec host h]
  simp [PlainBuffer.appendAligned]

theorem run_principal (host : Endian) (b : PlainBuffer) :
    (b.align 4).append (List.replicate 4 0) =
      (b.appendAligned (host.split 4 ([] : List UInt8).length)).append [] := by
  have h : host.split 4 0 = List.replicate 4 0 := by cases host <;> rfl
  simp [PlainBuffer.appendAligned, PlainBuffer.append_nil, h]

section
variable {f : Frame} {b : PlainBuffer}

theorem Frame.request11_at {id : Nat} {resp : UInt8} {key op : List UInt8} (hb : 4 ∣ b.pos)
    (hid : id < 2^32) (hkey : key.length < 2^32) (hop : op.length + 1 < 2^32)
    (hs : ∀ c ∈ op, c ≠ 0)
    (hw : (b.run f.sender (useRequest f.sender .v1_1 id resp key (operationVec f.sender op)
      none)).Within f.data) :
    ∃ u, demarshalRequest11 (f.at b) = .ok (u, f.at (b.run f.sender
        (useRequest f.sender .v1_1 id resp key (operationVec f.sender op) none))) ∧
      u.Recovers f.sender .v1_1 f.data (.request id resp key op) := by
  simp only [useRequest, PlainBuffer.run_cons, PlainBuffer.run_nil, PlainBuffer.exec,
    PlainBuffer.align_eq_self b (by decide) hb, run_operation, Option.getD_none] at hw ⊢
  rw [run_principal f.sender] at hw ⊢
  generalize hb1 : b.append (iopServiceContextData f.sender) = b1 at hw ⊢
  generalize hb2 : b1.append (f.sender.split 4 id) = b2 at hw ⊢
  generalize hb3 : b2.append [resp] = b3 at hw ⊢
  have hgrow := fun b : PlainBuffer => b.grows_appendAligned
  have w9 := hw.mono (PlainBuffer.grows_append _ _)
  have w8 := w9.mono (hgrow _ _)
  have w7 := w8.mono (PlainBuffer.grows_append _ _)
  have w6 := w7.mono (hgrow _ _)
  have w5 := w6.mono (PlainBuffer.grows_append _ _)
  have w3 := w5.mono (hgrow _ _)
  have w2 : b2.Within f.data := w3.mono (hb3 ▸ PlainBuffer.grows_append _ _)
  have w1 : b1.Within f.data := w2.mono (hb2 ▸ PlainBuffer.grows_append _ _)
  have p1 : b1.pos = b.pos + 24 := by rw [← hb1]; simp
  have p2 : b2.pos = b1.pos + 4 := by rw [← hb2]; simp
  have p3 : b3.pos = b2.pos + 1 := by rw [← hb3]; simp
  have p4 : (b3.align 4).pos = b2.pos + 4 := by
    rw [b3.align_pos (by decide), alignUp]
    omega
  have hctx := f.codeSets_at (b := b) (by rw [PlainBuffer.align_eq_self b (by decide) hb, hb1]; exact w1)
  have halign := f.align_noop (b := b1) (n := 4) (by decide) (by omega)
  have hneed : Dec.need 12 (f.at b1) = .ok ((), f.at b1) :=
    f.need_to w5 (by simp [PlainBuffer.appendAligned]; omega)
  have hword := f.word_at (b := b1) hid (hb2 ▸ w2)
  have hflag := f.flag_at (b := b2) (hb3 ▸ w3)
  have hadv : Dec.advance 4 (f.at b2) = .ok ((), f.at (b3.align 4)) := f.advance_to p4
  rw [PlainBuffer.align_eq_self b (by decide) hb, hb1] at hctx
  rw [hb2] at hword
  have hk := f.countedBytes_at (b := b3.align 4) hkey (by simpa [PlainBuffer.appendAligned] using w6)
  have ho := f.alignedBytes_at (by simpa using hop) w8
  have hp := f.alignedBytes_at (by decide) hw
  have hd : b3.appendAligned (f.sender.split 4 key.length) =
      (b3.align 4).append (f.sender.split 4 key.length) := by
    simp [PlainBuffer.appendAligned]
  rw [← hd] at hk
  have hkb := f.bytes_behind (b := b3.appendAligned (f.sender.split 4 key.length)) w6
  have hp5 : (b3.appendAligned (f.sender.split 4 key.length)).pos = (b3.align 4).pos + 4 := by
    simp [hd]
  rw [hp5] at hkb
  refine ⟨?u, ?run, ?found⟩
  case run =>
    rw [demarshalRequest11, Dec.bind_ok hctx, Dec.bind_ok halign, Dec.bind_ok hneed,
      Dec.bind_ok hword, Dec.bind_ok hflag, Dec.bind_ok hadv, Dec.bind_ok hk, Dec.bind_ok ho,
      Dec.bind_ok hp]
    exact Dec.pure_apply _ _
  case found => exact ⟨rfl, rfl, rfl, hkb, congrArg some (f.string_behind hs w8), rfl⟩

theorem Frame.request12_at {id : Nat} {resp : UInt8} {key op : List UInt8} (hb : 4 ∣ b.pos)
    (hid : id < 2^32) (hkey : key.length < 2^32) (hop : op.length + 1 < 2^32)
    (hs : ∀ c ∈ op, c ≠ 0)
    (hw : (b.run f.sender (useRequest f.sender .v1_2 id resp key (operationVec f.sender op)
      none)).Within f.data) :
    ∃ u, demarshalRequest12 (f.at b) = .ok (u, f.at (b.run f.sender
        (useRequest f.sender .v1_2 id resp key (operationVec f.sender op) none))) ∧
      u.Recovers f.sender .v1_2 f.data (.request id resp key op) := by
  simp only [useRequest, PlainBuffer.run_cons, PlainBuffer.run_nil, PlainBuffer.exec,
    PlainBuffer.align_eq_self b (by decide) hb, run_operation] at hw ⊢
  have hflags : (if resp ≠ 0 then (3 : UInt8) else 0).toNat = if resp ≠ 0 then 3 else 0 := by
    by_cases hr : resp = 0 <;> simp [hr]
  generalize (if resp ≠ 0 then (3 : UInt8) else 0) = flags at hw hflags ⊢
  generalize hb1 : b.append (f.sender.split 4 id) = b1 at hw ⊢
  generalize hb2 : b1.append [flags] = b2 at hw ⊢
  generalize hb3 : b2.append (List.replicate 3 0) = b3 at hw ⊢
  generalize hb4 : b3.append (f.sender.split 2 0) = b4 at hw ⊢
  generalize hb5 : ((b4.appendAligned (f.sender.split 4 key.length)).append key) = b5 at hw ⊢
  generalize hb6 : ((b5.appendAligned (f.sender.split 4 (op ++ [0]).length)).append (op ++ [0])) =
    b6 at hw ⊢
  have w8 := hw.mono (PlainBuffer.grows_align _ _)
  have w6 : b6.Within f.data := (w8.mono (PlainBuffer.grows_append _ _)).mono
    (PlainBuffer.grows_align _ _)
  rw [← hb6] at w6
  have w5 : b5.Within f.data := (w6.mono (PlainBuffer.grows_append _ _)).mono
    (PlainBuffer.grows_appendAligned _ _)
  rw [← hb5] at w5
  have w4 : b4.Within f.data := (w5.mono (PlainBuffer.grows_append _ _)).mono
    (PlainBuffer.grows_appendAligned _ _)
  have w3 : b3.Within f.data := w4.mono (hb4 ▸ PlainBuffer.grows_append _ _)
  have w2 : b2.Within f.data := w3.mono (hb3 ▸ PlainBuffer.grows_append _ _)
  have w1 : b1.Within f.data := w2.mono (hb2 ▸ PlainBuffer.grows_append _ _)
  have p1 : b1.pos = b.pos + 4 := by rw [← hb1]; simp
  have p3 : b3.pos = b1.pos + 4 := by rw [← hb3, ← hb2]; simp
  have halign := f.align_noop (b := b) (n := 4) (by decide) hb
  have hneed : Dec.need 8 (f.at b) = .ok ((), f.at b) := f.need_to w3 (by omega)
  have hword := f.word_at (b := b) hid (hb1 ▸ w1)
  have hflag := f.flag_at (b := b1) (hb2 ▸ w2)
  have hadv : Dec.advance 4 (f.at b1) = .ok ((), f.at b3) := f.advance_to p3
  have htarget := @Frame.targetAddress_at f b3 key (by omega) hkey (by rw [hb4]; exact w5)
  have ho := f.alignedBytes_at (b := b5) (by simpa using hop) w6
  have hctx := f.codeSets_at (b := b6) w8
  have htail := f.align_at (b := (b6.align 4).append (iopServiceContextData f.sender)) (n := 8)
    (by decide)
  rw [hb1] at hword
  rw [hb4, hb5] at htarget
  rw [hb6] at ho
  refine ⟨?u, ?run, ?found⟩
  case run =>
    rw [demarshalRequest12, Dec.bind_ok halign, Dec.bind_ok hneed, Dec.bind_ok hword,
      Dec.bind_ok hflag, Dec.bind_ok hadv, Dec.bind_ok htarget]
    simp only
    rw [Dec.bind_ok ho, Dec.bind_ok hctx, Dec.bind_ok htail]
    exact Dec.pure_apply _ _
  case found =>
    exact ⟨rfl, hflags, rfl, f.bytes_behind w5, congrArg some (f.string_behind hs w6), rfl⟩

/-- The two words of a reply. -/
theorem Frame.twoWords_at {id status : Nat} (hid : id < 2^32) (hst : status < 2^32)
    (hw : ((b.append (f.sender.split 4 id)).append (f.sender.split 4 status)).Within f.data) :
    Dec.need 8 (f.at b) = .ok ((), f.at b) ∧
    Dec.word 4 (f.at b) = .ok (id, f.at (b.append (f.sender.split 4 id))) ∧
    Dec.word 4 (f.at (b.append (f.sender.split 4 id))) =
      .ok (status, f.at ((b.append (f.sender.split 4 id)).append (f.sender.split 4 status))) :=
  ⟨f.need_to hw (by simp), f.word_at hid (hw.mono (PlainBuffer.grows_append _ _)),
    f.word_at hst hw⟩

theorem Frame.reply11_at {id status : Nat} (hb : 4 ∣ b.pos) (hid : id < 2^32)
    (hst : status < 2^32) (hw : (b.run f.sender (useReply f.sender .v1_1 id status)).Within f.data) :
    ∃ u, demarshalReply11 (f.at b) =
        .ok (u, f.at (b.run f.sender (useReply f.sender .v1_1 id status))) ∧
      u.Recovers f.sender .v1_1 f.data (.reply id status) := by
  simp only [useReply, PlainBuffer.run_cons, PlainBuffer.run_nil, PlainBuffer.exec] at hw ⊢
  have w1 := (hw.mono (PlainBuffer.grows_append _ _)).mono (PlainBuffer.grows_append _ _)
  have hctx := f.codeSets_at (b := b) (by rwa [PlainBuffer.align_eq_self b (by decide) hb])
  rw [PlainBuffer.align_eq_self b (by decide) hb] at hctx
  have halign := f.align_noop (b := b.append (iopServiceContextData f.sender)) (n := 4)
    (by decide) (by simp; omega)
  obtain ⟨hneed, hword, hword'⟩ := f.twoWords_at hid hst hw
  refine ⟨?u, ?run, ?found⟩
  case run =>
    rw [demarshalReply11, Dec.bind_ok hctx, Dec.bind_ok halign, Dec.bind_ok hneed,
      Dec.bind_ok hword, Dec.bind_ok hword']
    exact Dec.pure_apply _ _
  case found => exact ⟨rfl, rfl, rfl⟩

theorem Frame.reply12_at {id status : Nat} (hb : 4 ∣ b.pos) (hid : id < 2^32)
    (hst : status < 2^32) (hw : (b.run f.sender (useReply f.sender .v1_2 id status)).Within f.data) :
    ∃ u, demarshalReply12 (f.at b) =
        .ok (u, f.at (b.run f.sender (useReply f.sender .v1_2 id status))) ∧
      u.Recovers f.sender .v1_2 f.data (.reply id status) := by
  simp only [useReply, PlainBuffer.run_cons, PlainBuffer.run_nil, PlainBuffer.exec] at hw ⊢
  generalize hb2 : (b.append (f.sender.split 4 id)).append (f.sender.split 4 status) = b2 at hw ⊢
  have w3 := hw.mono (PlainBuffer.grows_align _ _)
  have w2 : b2.Within f.data := w3.mono (PlainBuffer.grows_append _ _)
  have hb4 : b2.align 4 = b2 :=
    PlainBuffer.align_eq_self b2 (by decide) (by rw [← hb2]; simp; omega)
  have halign := f.align_noop (b := b) (n := 4) (by decide) hb
  obtain ⟨hneed, hword, hword'⟩ := f.twoWords_at (b := b) hid hst (hb2 ▸ w2)
  have hctx := f.codeSets_at (b := b2) (by rwa [hb4])
  have htail := f.align_at (b := b2.append (iopServiceContextData f.sender)) (n := 8) (by decide)
  rw [hb2] at hword'
  rw [hb4] at hctx
  refine ⟨?u, ?run, ?found⟩
  case run =>
    rw [demarshalReply12, Dec.bind_ok halign, Dec.bind_ok hneed, Dec.bind_ok hword,
      Dec.bind_ok hword', Dec.bind_ok hctx, Dec.bind_ok htail]
    exact Dec.pure_apply _ _
  case found => exact ⟨rfl, rfl, rfl⟩

theorem Frame.locateRequest11_at {id : Nat} {key : List UInt8} (hb : 4 ∣ b.pos) (hid : id < 2^32)
    (hkey : key.length < 2^32)
    (hw : (b.run f.sender (useLocateRequest f.sender .v1_1 id key)).Within f.data) :
    ∃ u, demarshalLocateRequest11 (f.at b) =
        .ok (u, f.at (b.run f.sender (useLocateRequest f.sender .v1_1 id key))) ∧
      u.Recovers f.sender .v1_1 f.data (.locateRequest id key) := by
  simp only [useLocateRequest, PlainBuffer.run_cons, PlainBuffer.run_nil, PlainBuffer.exec] at hw ⊢
  generalize hb1 : b.append (f.sender.split 4 id) = b1 at hw ⊢
  have hd : b1.appendAligned (f.sender.split 4 key.length) =
      b1.append (f.sender.split 4 key.length) := by
    rw [PlainBuffer.appendAligned, Endian.split_length,
      PlainBuffer.align_eq_self b1 (by decide) (by rw [← hb1]; simp; omega)]
  rw [hd] at hw ⊢
  have w2 := hw.mono (PlainBuffer.grows_append _ _)
  have w1 : b1.Within f.data := w2.mono (PlainBuffer.grows_append _ _)
  have p1 : b1.pos = b.pos + 4 := by rw [← hb1]; simp
  have halign := f.align_noop (b := b) (n := 4) (by decide) hb
  have hneed : Dec.need 8 (f.at b) = .ok ((), f.at b) := f.need_to w2 (by simp; omega)
  have hword := f.word_at (b := b) hid (hb1 ▸ w1)
  have hk := f.countedBytes_at hkey hw
  rw [hb1] at hword
  have hkb := f.bytes_behind hw
  rw [PlainBuffer.append_pos, Endian.split_length] at hkb
  refine ⟨?u, ?run, ?found⟩
  case run =>
    rw [demarshalLocateRequest11, Dec.bind_ok halign, Dec.bind_ok hneed, Dec.bind_ok hword,
      Dec.bind_ok hk]
    exact Dec.pure_apply _ _
  case found => exact ⟨rfl, rfl, hkb⟩

theorem Frame.locateRequest12_at {id : Nat} {key : List UInt8} (hb : 4 ∣ b.pos) (hid : id < 2^32)
    (hkey : key.length < 2^32)
    (hw : (b.run f.sender (useLocateRequest f.sender .v1_2 id key)).Within f.data) :
    ∃ u, demarshalLocateRequest12 (f.at b) =
        .ok (u, f.at (b.run f.sender (useLocateRequest f.sender .v1_2 id key))) ∧
      u.Recovers f.sender .v1_2 f.data (.locateRequest id key) := by
  simp only [useLocateRequest, PlainBuffer.run_cons, PlainBuffer.run_nil, PlainBuffer.exec] at hw ⊢
  generalize hb1 : b.append (f.sender.split 4 id) = b1 at hw ⊢
  have w1 : b1.Within f.data := ((hw.mono (PlainBuffer.grows_append _ _)).mono
    (PlainBuffer.grows_appendAligned _ _)).mono (PlainBuffer.grows_append _ _)
  have p1 : b1.pos = b.pos + 4 := by rw [← hb1]; simp
  have halign := f.align_noop (b := b) (n := 4) (by decide) hb
  have hneed : Dec.need 4 (f.at b) = .ok ((), f.at b) := f.need_to w1 (by omega)
  have hword := f.word_at (b := b) hid (hb1 ▸ w1)
  rw [hb1] at hword
  have htarget := f.targetAddress_at (b := b1) (by omega) hkey hw
  refine ⟨?u, ?run, ?found⟩
  case run =>
    rw [demarshalLocateRequest12, Dec.bind_ok halign, Dec.bind_ok hneed, Dec.bind_ok hword,
      Dec.bind_ok htarget]
    exact Dec.pure_apply _ _
  case found => exact ⟨rfl, rfl, f.bytes_behind hw⟩

theorem Frame.locateReply_at {id status : Nat} {version : Version} (hb : 4 ∣ b.pos)
    (hid : id < 2^32) (hst : status < 2^32)
    (hw : (b.run f.sender (useLocateReply f.sender id status)).Within f.data) :
    ∃ u, demarshalLocateReply11 (f.at b) =
        .ok (u, f.at (b.run f.sender (useLocateReply f.sender id status))) ∧
      u.Recovers f.sender version f.data (.locateReply id status) := by
  simp only [useLocateReply, PlainBuffer.run_cons, PlainBuffer.run_nil, PlainBuffer.exec] at hw ⊢
  have halign := f.align_noop (b := b) (n := 4) (by decide) hb
  obtain ⟨hneed, hword, hword'⟩ := f.twoWords_at hid hst hw
  refine ⟨?u, ?run, ?found⟩
  case run =>
    rw [demarshalLocateReply11, Dec.bind_ok halign, Dec.bind_ok hneed, Dec.bind_ok hword,
      Dec.bind_ok hword']
    exact Dec.pure_apply _ _
  case found => exact ⟨rfl, rfl⟩

end

/-- Every entry of `decode_funcs` reads what the sender of that message wrote. -/
theorem decodeFunc_at {f : Frame} {b : PlainBuffer} (hb : 4 ∣ b.pos) (version : Version)
    (m : Outgoing) (hm : m.Valid)
    (hw : (b.run f.sender (m.ops f.sender version)).Within f.data) :
    ∃ decode u, decodeFunc m.messageType version = some decode ∧
      decode (f.at b) = .ok (u, f.at (b.run f.sender (m.ops f.sender version))) ∧
      u.Recovers f.sender version f.data m := by
  cases m with
  | request id resp key op =>
    obtain ⟨hid, hkey, hop, hs⟩ := hm
    cases version with
    | v1_0 =>
      obtain ⟨u, hu, hr⟩ := f.request11_at hb hid hkey hop hs hw
      exact ⟨_, u, rfl, hu, hr⟩
    | v1_1 =>
      obtain ⟨u, hu, hr⟩ := f.request11_at hb hid hkey hop hs hw
      exact ⟨_, u, rfl, hu, hr⟩
    | v1_2 =>
      obtain ⟨u, hu, hr⟩ := f.request12_at hb hid hkey hop hs hw
      exact ⟨_, u, rfl, hu, hr⟩
  | reply id status =>
    obtain ⟨hid, hst⟩ := hm
    cases version with
    | v1_0 =>
      obtain ⟨u, hu, hr⟩ := f.reply11_at hb hid hst hw
      exact ⟨_, u, rfl, hu, hr⟩
    | v1_1 =>
      obtain ⟨u, hu, hr⟩ := f.reply11_at hb hid hst hw
      exact ⟨_, u, rfl, hu, hr⟩
    | v1_2 =>
      obtain ⟨u, hu, hr⟩ := f.reply12_at hb hid hst hw
      exact ⟨_, u, rfl, hu, hr⟩
  | locateRequest id key =>
    obtain ⟨hid, hkey⟩ := hm
    cases version with
    | v1_0 =>
      obtain ⟨u, hu, hr⟩ := f.locateRequest11_at hb hid hkey hw
      exact ⟨_, u, rfl, hu, hr⟩
    | v1_1 =>
      obtain ⟨u, hu, hr⟩ := f.locateRequest11_at hb hid hkey hw
      exact ⟨_, u, rfl, hu, hr⟩
    | v1_2 =>
      obtain ⟨u, hu, hr⟩ := f.locateRequest12_at hb hid hkey hw
      exact ⟨_, u, rfl, hu, hr⟩
  | locateReply id status =>
    obtain ⟨hid, hst⟩ := hm
    obtain ⟨u, hu, hr⟩ := @Frame.locateReply_at _ _ _ _ version hb hid hst hw
    cases version <;> exact ⟨_, u, rfl, hu, hr⟩

/-- `buf` holds the complete message `wire` and nothing of it is decoded yet. -/
structure RecvBuffer.Holds (host : Endian) (wire : List UInt8) (buf : RecvBuffer) : Prop where
  header : parseHeader host (wire.take 12) = some buf.header
  body : buf.body = wire.drop 12
  cur : buf.cur = 12

/-- What the accessors of a decoded buffer return. -/
def RecvBuffer.Recovers (sender : Endian) (version : Version) (buf : RecvBuffer) :
    Outgoing → Prop
  | .request id resp key op =>
      buf.requestId = id ∧
      buf.decoded.responseFlags =
        (if version = .v1_2 then if resp ≠ 0 then 3 else 0 else resp.toNat) ∧
      buf.objkey = some key ∧ buf.opname = some op ∧ buf.decoded.serviceContext = codeSets sender
  | .reply id status =>
      buf.requestId = id ∧ buf.decoded.status = status ∧
      buf.decoded.serviceContext = codeSets sender
  | .locateRequest id key => buf.requestId = id ∧ buf.objkey = some key
  | .locateReply id status => buf.requestId = id ∧ buf.decoded.status = status

theorem MsgUnion.Recovers.buffer {sender : Endian} {version : Version} {m : Outgoing}
    {buf : RecvBuffer} (hm : buf.header.messageType = m.messageType)
    (hd : buf.decodedIn = buf.block)
    (h : buf.decoded.Recovers sender version buf.data m) : buf.Recovers sender version m := by
  cases m with
  | request id resp key op =>
    obtain ⟨hid, hresp, ha, hk, ho, hc⟩ := h
    refine ⟨?_, hresp, ?_, ?_, hc⟩
    · simpa [RecvBuffer.requestId, hm, Outgoing.messageType] using hid
    · simp [RecvBuffer.objkey, RecvBuffer.deref, ha, hd, hk]
    · cases hop : buf.decoded.operation with
      | none => simp [hop] at ho
      | some offset => simpa [RecvBuffer.opname, RecvBuffer.deref, hd, hop] using ho
  | reply id status =>
    exact ⟨by simpa [RecvBuffer.requestId, hm, Outgoing.messageType] using h.1, h.2⟩
  | locateRequest id key =>
    obtain ⟨hid, ha, hk⟩ := h
    refine ⟨by simpa [RecvBuffer.requestId, hm, Outgoing.messageType] using hid, ?_⟩
    simp [RecvBuffer.objkey, RecvBuffer.deref, ha, hd, hk]
  | locateReply id status =>
    exact ⟨by simpa [RecvBuffer.requestId, hm, Outgoing.messageType] using h.1, h.2⟩

/-- Every message this implementation sends is decoded to what it was built from, and
the reader is left at the first byte behind its header. -/
theorem demarshal_wire (host sender : Endian) (version : Version) (m : Outgoing) (hm : m.Valid)
    (rest : List UInt8) (hsize : (m.headerBody sender version ++ rest).length < 2^32)
    (buf : RecvBuffer) (hbuf : buf.Holds host (m.wire sender version rest)) :
    ∃ buf', buf.demarshal host = .ok buf' ∧ buf'.Recovers sender version m ∧
      buf'.data.drop buf'.cur = rest := by
  obtain ⟨hhead, hbody, hcur⟩ := hbuf
  have hheader : buf.header =
      sentHeader sender m version (m.headerBody sender version ++ rest).length := by
    have h := parseHeader_encode host
      (sentHeader sender m version (m.headerBody sender version ++ rest).length) hsize
    rw [Outgoing.wire, List.take_left' (by simp), h, Option.some.injEq] at hhead
    exact hhead.symm
  rw [Outgoing.wire, List.drop_left' (by simp)] at hbody
  let f : Frame := ⟨0, host, sender, buf.data, Nat.dvd_zero 8⟩
  let b : PlainBuffer := ⟨12, []⟩
  have hgrow := b.grows_run sender (m.ops sender version)
  have hw : (b.run sender (m.ops sender version)).Within f.data := by
    refine ⟨List.replicate 12 0, rest, ?_, ?_⟩
    · rw [hgrow.1]
      rfl
    · simp only [f, RecvBuffer.data, hbody, List.append_assoc]
      rfl
  obtain ⟨decode, u, hdec, hrun, hrec⟩ := decodeFunc_at (f := f) (b := b) (by decide) version m hm hw
  have hcursor : buf.cursor host = f.at b := by
    rw [RecvBuffer.cursor, hheader, sentHeader_sender, hcur]
    rfl
  have hdem : buf.demarshal host = .ok { buf with
      decoded := u, decodedIn := buf.block,
      cur := (b.run sender (m.ops sender version)).pos } := by
    have htype : buf.header.messageType = m.messageType := by rw [hheader]; rfl
    have hversion : buf.header.version = version := by rw [hheader]; rfl
    rw [RecvBuffer.demarshal, htype, hversion, hdec, hcursor]
    simp only [hrun]
    rfl
  refine ⟨_, hdem, ?_, ?_⟩
  · exact hrec.buffer (by simp only [hheader]; rfl) rfl
  · have hpos : (b.run sender (m.ops sender version)).pos =
        (List.replicate 12 (0 : UInt8) ++ m.headerBody sender version).length := by
      rw [PlainBuffer.pos, hgrow.1, List.length_append, List.length_replicate]
      rfl
    simp only [RecvBuffer.data, hbody, hpos]
    rw [← List.append_assoc, List.drop_left]

set_option maxRecDepth 4096 in
theorem demarshal_wire_request :
    let m := Outgoing.request 7 1 [1, 2, 3, 4, 5] [0x70, 0x69, 0x6e, 0x67, 0x73]
    let wire := m.wire .big .v1_2 [9, 9]
    let buf := { RecvBuffer.useBuf 0 with
      header := ⟨.v1_2, 0, .request, 62⟩, body := wire.drop 12, cur := 12 }
    ∃ buf', buf.demarshal .little = .ok buf' ∧ buf'.Recovers .big .v1_2 m ∧
      buf'.data.drop buf'.cur = [9, 9] :=
  demarshal_wire .little .big .v1_2 _ (by simp [Outgoing.Valid]) [9, 9] (by decide) _
    ⟨by decide, rfl, rfl⟩

end ORBit2
