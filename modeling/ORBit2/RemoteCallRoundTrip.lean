import ORBit2.RemoteCall

/-! A remote call is a call: the servant gets the arguments of the caller, and the caller gets
what the servant left, if and only if every count in both fits what the readers keep it in. -/

set_option autoImplicit false

namespace ORBit2
open Words

theorem marshalValue_skipAlias (host : Endian) (v : Value) : (tc : TypeCode) →
    marshalValue host tc.skipAlias v = marshalValue host tc v
  | .alias tc => by
    rw [TypeCode.skipAlias, marshalValue_skipAlias host v tc]
    simp [marshalValue]
  | .null | .basic _ | .string | .wstring | .struct _ | .except _ | .union .. | .sequence _
  | .array .. => by simp [TypeCode.skipAlias]

theorem demarshalValue_skipAlias : (tc : TypeCode) →
    demarshalValue tc.skipAlias = demarshalValue tc
  | .alias tc => by
    rw [TypeCode.skipAlias, demarshalValue_skipAlias tc]
    simp [demarshalValue]
  | .null | .basic _ | .string | .wstring | .struct _ | .except _ | .union .. | .sequence _
  | .array .. => by simp [TypeCode.skipAlias]

namespace RemoteCall

/-- The types of the arguments that a loop stops at. -/
def typesOf (wanted : Argument → Bool) (args : List Argument) : List TypeCode :=
  (args.filter wanted).map Argument.tc

theorem typesOf_wanted {wanted : Argument → Bool} {a : Argument} {as : List Argument}
    (h : wanted a = true) : typesOf wanted (a :: as) = a.tc :: typesOf wanted as := by
  simp [typesOf, h]

theorem typesOf_skipped {wanted : Argument → Bool} {a : Argument} {as : List Argument}
    (h : wanted a = false) : typesOf wanted (a :: as) = typesOf wanted as := by
  simp [typesOf, h]

/-! ### The loops over the arguments -/

theorem marshalArgs_eq (host : Endian) (wanted : Argument → Bool) (as : List Argument)
    (vs : List Value) : marshalArgs host wanted as vs = marshalMembers host (typesOf wanted as) vs := by
  induction as generalizing vs with
  | nil => cases vs <;> simp [marshalArgs, typesOf, marshalMembers]
  | cons a as ih =>
    cases hw : wanted a with
    | false =>
      rw [typesOf_skipped hw, ← ih]
      cases vs <;> simp [marshalArgs, hw]
    | true =>
      rw [typesOf_wanted hw]
      cases vs with
      | nil => simp [marshalArgs, marshalMembers, hw]
      | cons v vs => simp only [marshalArgs, hw, if_true, marshalMembers, marshalValue_skipAlias, ih]

/-- However a loop ends early, it reads what the members of a struct would be read as. -/
theorem demarshalArgs_ok_iff (wanted inPlace : Argument → Bool) (as : List Argument)
    (c : RecvCursor) (r : List Value × RecvCursor) :
    demarshalArgs wanted inPlace as c = .ok r ↔ demarshalMembers (typesOf wanted as) c = .ok r := by
  induction as generalizing c r with
  | nil =>
    simp only [demarshalArgs, typesOf, List.filter_nil, List.map_nil, demarshalMembers]
    exact ⟨fun h => by cases h; rfl, fun h => by cases h; rfl⟩
  | cons a as ih =>
    cases hw : wanted a with
    | false => rw [typesOf_skipped hw, demarshalArgs, hw, if_neg (by simp), ih]
    | true =>
      rw [typesOf_wanted hw, demarshalArgs, if_pos hw, demarshalValue_skipAlias, demarshalMembers]
      cases hv : demarshalValue a.tc c with
      | error e => cases e <;> simp [Dec.bind_error hv]
      | ok p =>
        obtain ⟨v, c'⟩ := p
        rw [Dec.bind_ok hv]
        cases hs : demarshalMembers (typesOf wanted as) c' with
        | error e =>
          rw [Dec.bind_error hs]
          have hno : ∀ q, demarshalArgs wanted inPlace as c' ≠ .ok q := by
            intro q hq
            cases hs.symm.trans ((ih c' q).mp hq)
          cases hq : demarshalArgs wanted inPlace as c' with
          | error e' => simp [hq]
          | ok q => exact absurd hq (hno q)
        | ok q =>
          have hq := (ih c' q).mpr hs
          obtain ⟨vs, c''⟩ := q
          rw [Dec.bind_ok hs]
          rw [Dec.pure_apply]
          simp [hq]

/-- The arguments come back from what was marshalled of them exactly when they fit. -/
theorem demarshalArgs_at (wanted inPlace : Argument → Bool) (as : List Argument) {vs : List Value}
    (hv : hasTypes (typesOf wanted as) vs) {sender : Endian} {ops : List SendOp}
    (ho : marshalArgs sender wanted as vs = some ops) {f : Frame} {b : PlainBuffer}
    (hs : f.sender = sender) (hw : (b.run sender ops).Within f.data) :
    if fitsAll (typesOf wanted as) vs then
      demarshalArgs wanted inPlace as (f.at b) = .ok (vs, f.at (b.run sender ops))
    else ∃ e, demarshalArgs wanted inPlace as (f.at b) = .error e := by
  obtain ⟨ops', ho', ha⟩ := members_agree sender (typesOf wanted as) vs hv
  rw [marshalArgs_eq, ho', Option.some.injEq] at ho
  subst ho
  have h := ha f b hs hw
  by_cases hf : fitsAll (typesOf wanted as) vs = true
  · rw [if_pos hf] at h ⊢
    exact (demarshalArgs_ok_iff ..).mpr h
  · rw [if_neg hf] at h ⊢
    obtain ⟨e, he⟩ := h
    cases hq : demarshalArgs wanted inPlace as (f.at b) with
    | error e' => exact ⟨e', rfl⟩
    | ok q => cases he.symm.trans ((demarshalArgs_ok_iff ..).mp hq)

/-! ### Messages -/

/-- The length of the body of a message. -/
def bodyLength (host : Endian) (version : Version) (m : Outgoing) (ops : List SendOp) : Nat :=
  (PlainBuffer.run host ⟨12, []⟩ (m.ops host version ++ ops)).body.length

/-- A received buffer whose header is decoded: the reader stands behind the header, where the
sender stood when it began to marshal. -/
structure Delivered (host sender : Endian) (version : Version) (m : Outgoing) (ops : List SendOp)
    (buf : RecvBuffer) : Prop where
  header : buf.header.version = version
  recovers : buf.Recovers sender version m
  reading : ∃ f : Frame, f.sender = sender ∧
    buf.cursor host = f.at (PlainBuffer.run sender ⟨12, []⟩ (m.ops sender version)) ∧
    (PlainBuffer.run sender ⟨12, []⟩ (m.ops sender version ++ ops)).Within f.data

theorem wire_message (sender : Endian) (version : Version) (m : Outgoing) (ops : List SendOp) :
    message sender version m ops =
      (sentHeader sender m version (bodyLength sender version m ops)).encode ++
        (PlainBuffer.run sender ⟨12, []⟩ (m.ops sender version ++ ops)).body := by
  obtain ⟨-, ext, hext⟩ :=
    PlainBuffer.grows_run sender (PlainBuffer.run sender ⟨12, []⟩ (m.ops sender version)) ops
  rw [← PlainBuffer.run_append] at hext
  have hbody : m.headerBody sender version ++
      (PlainBuffer.run sender ⟨12, []⟩ (m.ops sender version ++ ops)).body.drop
        (m.headerBody sender version).length =
      (PlainBuffer.run sender ⟨12, []⟩ (m.ops sender version ++ ops)).body := by
    rw [← hext, Outgoing.headerBody, List.drop_left]
  rw [message, Outgoing.wire, hbody]
  rfl

theorem message_delivered (host sender : Endian) (version : Version) (m : Outgoing) (hm : m.Valid)
    (ops : List SendOp) (hsize : bodyLength sender version m ops < 2^32) :
    ∃ buf buf', arrived host (message sender version m ops) = some buf ∧
      buf.demarshal host = .ok buf' ∧ Delivered host sender version m ops buf' := by
  have hparse := parseHeader_encode host (sentHeader sender m version (bodyLength sender version m ops))
    hsize
  let buf : RecvBuffer := { RecvBuffer.useBuf 0 with
    header := sentHeader sender m version (bodyLength sender version m ops)
    body := (PlainBuffer.run sender ⟨12, []⟩ (m.ops sender version ++ ops)).body
    cur := 12 }
  have harr : arrived host (message sender version m ops) = some buf := by
    rw [arrived, wire_message, List.take_left' (by simp), hparse, List.drop_left' (by simp)]
  let f : Frame := ⟨0, host, sender, buf.data, Nat.dvd_zero 8⟩
  have hwhole : (PlainBuffer.run sender ⟨12, []⟩ (m.ops sender version ++ ops)).Within f.data := by
    refine ⟨List.replicate 12 0, [], ?_, by simp [f, buf, RecvBuffer.data]⟩
    rw [(PlainBuffer.grows_run sender ⟨12, []⟩ (m.ops sender version ++ ops)).1]
    rfl
  have hhead : (PlainBuffer.run sender ⟨12, []⟩ (m.ops sender version)).Within f.data := by
    rw [PlainBuffer.run_append] at hwhole
    exact hwhole.mono (PlainBuffer.grows_run ..)
  obtain ⟨decode, u, hdec, hrun, hrec⟩ :=
    decodeFunc_at (f := f) (b := ⟨12, []⟩) (by decide) version m hm hhead
  have hcursor : buf.cursor host = f.at ⟨12, []⟩ := by
    rw [RecvBuffer.cursor, show buf.header = _ from rfl, sentHeader_sender]
    rfl
  let buf' : RecvBuffer := { buf with
    decoded := u, decodedIn := buf.block
    cur := (PlainBuffer.run sender ⟨12, []⟩ (m.ops sender version)).pos }
  have hdem : buf.demarshal host = .ok buf' := by
    rw [RecvBuffer.demarshal, show buf.header.messageType = m.messageType from rfl,
      show buf.header.version = version from rfl, hdec, hcursor]
    simp only [hrun]
    rfl
  refine ⟨buf, buf', harr, hdem, rfl, hrec.buffer rfl rfl, f, rfl, ?_, hwhole⟩
  rw [RecvBuffer.cursor, show buf'.header = _ from rfl, sentHeader_sender]
  rfl

/-! ### What the caller should find -/

def IsCString (s : List UInt8) : Prop := (∀ c ∈ s, c ≠ 0) ∧ s.length + 1 < 2^32

theorem unknownId_isCString : IsCString unknownId := by
  unfold IsCString
  decide +kernel

namespace Method

/-- Its names are C strings. -/
structure Named (m : Method) : Prop where
  name : IsCString m.name
  repoIds : ∀ e ∈ m.exceptions, ∀ c ∈ e.repoId, c ≠ 0

def declared (m : Method) (id : List UInt8) : Option ExceptionType :=
  m.exceptions.find? fun e => e.repoId == id

/-- What a caller in the same process would find, but for exceptions that are not declared. -/
def seen (m : Method) : Outcome → Received
  | .returned ret outs => .returned ret outs
  | .user id value =>
      if (m.declared id).isSome then .user id (some value)
      else .system (some unknownId) 0 completedMaybe
  | .system id minor completed => .system (some id) minor completed

def LeavesRet (m : Method) (ret : Option Value) : Prop :=
  match m.ret, ret with
  | none, none => True
  | some tc, some v => hasType tc v = true
  | _, _ => False

/-- The servant left values of the types that the method says, in C strings and 32-bit words. -/
def Leaves (m : Method) : Outcome → Prop
  | .returned ret outs =>
      m.LeavesRet ret ∧
      hasTypes (typesOf Argument.comesOut m.arguments) outs = true
  | .user id value => IsCString id ∧ ∀ e, m.declared id = some e → hasType e.tc value = true
  | .system id minor completed => IsCString id ∧ minor < 2^32 ∧ completed < 2^32

/-- The counts in a result fit, and one that is allocated has a size. -/
def fitsRet (m : Method) (ret : Option Value) : Bool :=
  match m.ret, ret with
  | some tc, some v => ORBit2.fits tc v && (m.retInPlace tc || !tc.sizeless)
  | _, _ => true

/-- The counts in what the servant left fit. -/
def fits (m : Method) : Outcome → Bool
  | .returned ret outs =>
      m.fitsRet ret &&
      fitsAll (typesOf Argument.comesOut m.arguments) outs
  | .user id value => (m.declared id).all fun e => ORBit2.fits e.tc value
  | .system _ _ _ => true

end Method

/-! ### Exceptions in a reply -/

theorem sameString_of_cstring {e s post : List UInt8} (he : ∀ c ∈ e, c ≠ 0) (hs : ∀ c ∈ s, c ≠ 0) :
    sameString e (s ++ [0] ++ post) = .ok (e == s) := by
  induction e generalizing s with
  | nil =>
    cases s with
    | nil => simp [sameString]
    | cons y ys => simpa [sameString] using hs y List.mem_cons_self
  | cons x xs ih =>
    cases s with
    | nil => simp [sameString, he x List.mem_cons_self]
    | cons y ys =>
      have hrest := ih (s := ys) (fun c hc => he c (List.mem_cons_of_mem x hc))
        (fun c hc => hs c (List.mem_cons_of_mem y hc))
      by_cases hxy : x = y
      · subst hxy
        simpa [sameString] using hrest
      · simp [sameString, hxy]

section
variable {f : Frame} {b : PlainBuffer} {id : List UInt8}

theorem stringAt_eq {p : Nat} {post : List UInt8} {c : RecvCursor} (hid : ∀ x ∈ id, x ≠ 0)
    (hc : c.data.drop p = id ++ [0] ++ post) : stringAt p c = .ok (id, c) := by
  have ht : (id ++ [0] ++ post).takeWhile (· ≠ 0) = id := by
    rw [List.append_assoc, List.takeWhile_append_of_pos (by simpa using hid)]
    simp
  rw [stringAt, Dec.cstring]
  simp only [hc]
  rw [if_pos (by simp), ht]

theorem findException_eq {p : Nat} {post : List UInt8} {c : RecvCursor} (hid : ∀ x ∈ id, x ≠ 0)
    (hc : c.data.drop p = id ++ [0] ++ post) (es : List ExceptionType)
    (hes : ∀ e ∈ es, ∀ x ∈ e.repoId, x ≠ 0) :
    findException p es c = .ok (es.find? fun e => e.repoId == id, c) := by
  induction es with
  | nil => rfl
  | cons e es ih =>
    have hrest := ih fun e he => hes e (List.mem_cons_of_mem _ he)
    have hsame : sameAt e.repoId p c = .ok (e.repoId == id, c) := by
      rw [sameAt, hc, sameString_of_cstring (hes e List.mem_cons_self) hid]
    rw [findException, Dec.bind_ok hsame, List.find?_cons]
    cases e.repoId == id
    · exact hrest
    · rfl

/-- The reader behind an id, and what lies where it points. -/
theorem readRepoId_at (hid : IsCString id)
    (hw : (b.exec f.sender (.appendString id)).Within f.data) :
    ∃ p post, readRepoId (f.at b) = .ok (some p, f.at (b.exec f.sender (.appendString id))) ∧
      f.data.drop p = id ++ [0] ++ post := by
  have hexec := @PlainBuffer.exec_appendString f.sender b id
  rw [hexec] at hw ⊢
  have hword := f.alignedWord_at (by decide) hid.2 (hw.mono (PlainBuffer.grows_append _ _))
  have hadv := f.advance_at (b := b.appendAligned (f.sender.split 4 (id.length+1))) (id ++ [0])
  obtain ⟨post, hpost⟩ := hw.drop
  refine ⟨_, post, ?_, hpost⟩
  rw [readRepoId, Dec.bind_ok hword, if_neg (by omega)]
  rw [List.length_append, List.length_singleton] at hadv
  rw [Dec.bind_ok (show Dec.tell (f.at _) = .ok (_, f.at _) from rfl), Dec.bind_ok hadv]
  rfl

/-- A system exception comes back. -/
theorem systemException_at (m : Method) {minor completed : Nat} (hid : IsCString id)
    (hm : minor < 2^32) (hc : completed < 2^32)
    (hw : (b.run f.sender (sendSystemException f.sender id minor completed)).Within f.data) :
    handleExceptionArray m systemStatus (f.at b) = .ok (.system (some id) minor completed) := by
  change (((b.exec f.sender (.appendString id)).appendAligned (f.sender.split 4 minor)).appendAligned
    (f.sender.split 4 completed)).Within f.data at hw
  have hw₂ := hw.mono (PlainBuffer.grows_appendAligned ..)
  have hw₁ := hw₂.mono (PlainBuffer.grows_appendAligned ..)
  obtain ⟨p, post, hread, hdrop⟩ := readRepoId_at hid hw₁
  have hminor := f.alignedWord_at (w := 4) (by decide) hm hw₂
  have hcompleted := f.alignedWord_at (w := 4) (by decide) hc hw
  simp only [handleExceptionArray, if_true]
  have hs := stringAt_eq (c := f.at (((b.exec f.sender (.appendString id)).appendAligned
    (f.sender.split 4 minor)).appendAligned (f.sender.split 4 completed))) hid.1 hdrop
  have hall : (readRepoId >>= readSystem) (f.at b) = .ok (.system (some id) minor completed,
      f.at (((b.exec f.sender (.appendString id)).appendAligned
        (f.sender.split 4 minor)).appendAligned (f.sender.split 4 completed))) := by
    rw [Dec.bind_ok hread, readSystem, Dec.bind_ok hminor, Dec.bind_ok hcompleted]
    exact Dec.bind_ok hs
  rw [hall]

/-- A declared user exception comes back with its value, if that fits. -/
theorem userException_at (m : Method) (hn : m.Named) {value : Value} {e : ExceptionType}
    {ops : List SendOp} (hid : IsCString id) (hd : m.declared id = some e)
    (hv : hasType e.tc value = true) (ho : marshalValue f.sender e.tc value = some ops)
    (hw : (b.run f.sender (.appendString id :: ops)).Within f.data) :
    handleExceptionArray m userStatus (f.at b) = .ok (.user id (some value)) ↔
      ORBit2.fits e.tc value = true := by
  rw [PlainBuffer.run_cons] at hw
  obtain ⟨p, post, hread, hdrop⟩ := readRepoId_at hid (hw.mono (PlainBuffer.grows_run ..))
  have hfind := findException_eq (c := f.at (b.exec f.sender (.appendString id))) hid.1 hdrop
    m.exceptions hn.repoIds
  have hrepo : e.repoId = id := by simpa using List.find?_some hd
  obtain ⟨ops', ho', ha⟩ := value_agrees f.sender e.tc value hv
  cases ho.symm.trans ho'
  have hval := ha f (b.exec f.sender (.appendString id)) rfl hw
  have hall : (readRepoId >>= readUser m) (f.at b) =
      (exceptionValue e.tc >>= fun v => pure (Received.user e.repoId v))
        (f.at (b.exec f.sender (.appendString id))) := by
    rw [Dec.bind_ok hread, readUser, Dec.bind_ok hfind, show List.find? _ _ = some e from hd]
  simp only [handleExceptionArray, show ¬ userStatus = systemStatus by decide, if_false, if_true]
  rw [hall]
  by_cases hf : ORBit2.fits e.tc value = true
  · rw [if_pos hf] at hval
    have hsome : exceptionValue e.tc (f.at (b.exec f.sender (.appendString id))) =
        .ok (some value, f.at ((b.exec f.sender (.appendString id)).run f.sender ops)) := by
      rw [exceptionValue, hval]
    rw [Dec.bind_ok hsome, Dec.pure_apply]
    simp [hf, hrepo]
  · rw [if_neg hf] at hval
    obtain ⟨stop, hstop⟩ := hval
    rw [Dec.bind_apply, exceptionValue, hstop]
    cases stop <;> simp [hf]

end

/-! ### The reply -/

theorem demarshalRet_at (m : Method) {ret : Option Value} (hl : m.LeavesRet ret) {f : Frame}
    {b : PlainBuffer} {ops : List SendOp} (ho : marshalRet f.sender m ret = some ops)
    (hw : (b.run f.sender ops).Within f.data) :
    if m.fitsRet ret then demarshalRet m (f.at b) = .ok (ret, f.at (b.run f.sender ops))
    else ∃ r, demarshalRet m (f.at b) = .error r ∧ ∀ ret' outs, r ≠ .ok (.returned ret' outs) := by
  unfold Method.LeavesRet at hl
  unfold marshalRet at ho
  unfold Method.fitsRet demarshalRet
  cases hret : m.ret with
  | none =>
    cases ret with
    | some v => simp [hret] at hl
    | none =>
      simp only [hret, Option.some.injEq] at ho
      subst ho
      rfl
  | some tc =>
    cases ret with
    | none => simp [hret] at hl
    | some v =>
      simp only [hret] at hl ho ⊢
      obtain ⟨ops', ho', ha⟩ := value_agrees f.sender tc v hl
      cases ho.symm.trans ho'
      have h := ha f b rfl hw
      rw [demarshalValue_skipAlias]
      by_cases hf : ORBit2.fits tc v = true
      · rw [if_pos hf] at h
        rw [h, hf]
        cases m.retInPlace tc <;> cases tc.sizeless <;> simp
      · rw [if_neg hf] at h
        obtain ⟨stop, hstop⟩ := h
        rw [hstop, Bool.eq_false_iff.mpr hf]
        cases m.retInPlace tc <;> cases stop <;> simp [marshalMaybe]

/-- What the servant left is what the caller finds, exactly when it fits. -/
theorem reply_received {host sender : Endian} {version : Version} {requestId status : Nat}
    {m : Method} (hn : m.Named) {result : Outcome} (hl : m.Leaves result) {ops : List SendOp}
    (ho : replyTo sender m result = some (status, ops)) {buf : RecvBuffer}
    (hdel : Delivered host sender version (.reply requestId status) ops buf) :
    smallDemarshal host m buf = .ok (m.seen result) ↔ m.fits result = true := by
  obtain ⟨-, ⟨-, hstatus, -⟩, f, rfl, hcursor, hw⟩ := hdel
  rw [PlainBuffer.run_append] at hw
  rw [smallDemarshal, hstatus, hcursor]
  cases result with
  | returned ret outs =>
    simp only [replyTo, Option.bind_eq_bind, Option.bind_eq_some_iff] at ho
    obtain ⟨opsRet, hopsRet, opsOut, hopsOut, heq⟩ := ho
    cases heq
    rw [PlainBuffer.run_append] at hw
    have hret := demarshalRet_at m hl.1 hopsRet (hw.mono (PlainBuffer.grows_run ..))
    have hout := demarshalArgs_at Argument.comesOut Argument.leftInPlace m.arguments hl.2 hopsOut rfl hw
    rw [if_pos rfl, Method.fits, Method.seen]
    by_cases hf : m.fitsRet ret = true
    · rw [if_pos hf] at hret
      simp only [hret, hf, Bool.true_and]
      by_cases hg : fitsAll (typesOf Argument.comesOut m.arguments) outs = true
      · rw [if_pos hg] at hout
        simp [hout, hg]
      · rw [if_neg hg] at hout
        obtain ⟨e, he⟩ := hout
        cases e <;> simp [he, hg, marshalMaybe]
    · rw [if_neg hf] at hret
      obtain ⟨r, hr, hne⟩ := hret
      simp [hr, hf, hne]
  | user id value =>
    rw [replyTo] at ho
    rw [Method.seen, Method.fits]
    cases hd : m.declared id with
    | none =>
      rw [show m.exceptions.find? _ = none from hd] at ho
      cases ho
      rw [if_neg (by decide), if_neg (by decide)]
      exact iff_of_true (systemException_at m unknownId_isCString (by decide) (by decide) hw) rfl
    | some e =>
      rw [show m.exceptions.find? _ = some e from hd] at ho
      obtain ⟨ops', hops', heq⟩ := Option.map_eq_some_iff.mp ho
      cases heq
      rw [if_neg (by decide), if_neg (by decide)]
      exact userException_at m hn hl.1 hd (hl.2 e hd) hops' hw
  | system id minor completed =>
    cases ho
    rw [if_neg (by decide), if_neg (by decide)]
    exact iff_of_true (systemException_at m hl.1 hl.2.1 hl.2.2 hw) rfl

theorem replyTo_isSome (host : Endian) (m : Method) {result : Outcome} (hl : m.Leaves result) :
    ∃ status ops, replyTo host m result = some (status, ops) ∧ status < 2^32 := by
  cases result with
  | returned ret outs =>
    have hret : ∃ ops, marshalRet host m ret = some ops := by
      have hr := hl.1
      unfold Method.LeavesRet at hr
      unfold marshalRet
      cases hm : m.ret with
      | none => exact ⟨[], rfl⟩
      | some tc =>
        cases ret with
        | none => simp [hm] at hr
        | some v =>
          obtain ⟨ops, ho, -⟩ := value_agrees host tc v (by simpa [hm] using hr)
          exact ⟨ops, ho⟩
    obtain ⟨ops, ho⟩ := hret
    obtain ⟨ops', ho', -⟩ := members_agree host _ outs hl.2
    exact ⟨noExceptionStatus, ops ++ ops', by simp [replyTo, ho, marshalArgs_eq, ho'], by decide⟩
  | user id value =>
    rw [replyTo]
    cases hd : m.declared id with
    | none =>
      rw [show m.exceptions.find? _ = none from hd]
      exact ⟨_, _, rfl, by decide⟩
    | some e =>
      obtain ⟨ops, ho, -⟩ := value_agrees host e.tc value (hl.2 e hd)
      rw [show m.exceptions.find? _ = some e from hd]
      exact ⟨userStatus, .appendString id :: ops, by simp [ho], by decide⟩
  | system id minor completed => exact ⟨_, _, rfl, by decide⟩

/-! ### The whole call -/

/-- A request arrives where its object and its operation are. The servant is called with the
arguments of the caller, or not at all. -/
theorem request_served {client server : Endian} {version : Version} {requestId : Nat}
    {key : List UInt8} {m : Method} (servant : List Value → Outcome) {args : List Value}
    (hargs : hasTypes (typesOf Argument.goesIn m.arguments) args = true) {ops : List SendOp}
    (ho : requestOps client m args = some ops) {buf : RecvBuffer}
    (hdel : Delivered server client version (requestOf m requestId key) ops buf) :
    if fitsAll (typesOf Argument.goesIn m.arguments) args then
      smallInvokeAdaptor server m servant buf =
        if m.oneway then some ⟨some args, none⟩
        else (replyTo server m (servant args)).map fun (status, ops) =>
          ⟨some args, some (message server version (.reply requestId status) ops)⟩
    else ∀ served, smallInvokeAdaptor server m servant buf = some served → served.called = none := by
  obtain ⟨hversion, ⟨hid, -⟩, f, rfl, hcursor, hw⟩ := hdel
  rw [PlainBuffer.run_append] at hw
  have hin := demarshalArgs_at Argument.goesIn Argument.enteredInPlace m.arguments hargs ho rfl hw
  rw [smallInvokeAdaptor, hcursor]
  by_cases hf : fitsAll (typesOf Argument.goesIn m.arguments) args = true
  · rw [if_pos hf] at hin ⊢
    simp only [hin, hversion, hid, Option.map_map]
    rfl
  · rw [if_neg hf] at hin ⊢
    obtain ⟨e, he⟩ := hin
    intro served hs
    cases e with
    | refused =>
      simp only [he, Option.map_eq_some_iff] at hs
      obtain ⟨reply, -, rfl⟩ := hs
      rfl
    | null => simp [he] at hs
    | undefined => simp [he] at hs

/-- A call that can be made: the object is there and has the method, the arguments and what the
servant leaves are of their types, and both messages have lengths of 32 bits. -/
structure Callable (client server : Endian) (version : Version) (requestId : Nat)
    (key : List UInt8) (objects : Objects) (m : Method) (servant : List Value → Outcome)
    (args : List Value) : Prop where
  named : m.Named
  words : requestId < 2^32 ∧ key.length < 2^32
  found : objects key m.name = some (m, servant)
  typed : hasTypes (typesOf Argument.goesIn m.arguments) args = true
  leaves : m.oneway = false → m.Leaves (servant args)
  asked : ∀ ops, requestOps client m args = some ops →
    bodyLength client version (requestOf m requestId key) ops < 2^32
  answered : ∀ status ops, replyTo server m (servant args) = some (status, ops) →
    bodyLength server version (.reply requestId status) ops < 2^32

/-- An inout word behind a string, and one exception. -/
def take : Method where
  name := [116, 97, 107, 101]
  arguments := [⟨.string, .argIn, false⟩, ⟨.basic .long, .argInout, false⟩]
  ret := some (.basic .short)
  exceptions := [⟨[69], .except [.basic .ulong]⟩]
  oneway := false
  fixedSize := true

end RemoteCall
end ORBit2
