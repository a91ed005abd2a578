import ORBit2.Adaptor

/-! What reaches user code of a message that is cut short: the servant through
`ORBit_small_invoke_adaptor`, the caller through `ORBit_small_invoke_stub`. -/

set_option autoImplicit false

namespace ORBit2

inductive ReplyStatus where
  | noException | userException | systemException | locationForward | other
  deriving DecidableEq, Repr

structure StubReply (β : Type) where
  status : ReplyStatus
  body : β
  /-- `ORBit_handle_location_forward` finds a connection -/
  forwarded : Bool

structure StubWire (β : Type) extends Wire β where
  /-- the repository id an exception starts with; `none` if there is none in the message,
  `some none` if its length is 0 -/
  repoId : β → Option (Option Nat) × β
  /-- the end of a system exception -/
  completed : β → Option CompletionStatus

/-- One round from `retry_request` on: what becomes of the request. -/
inductive Attempt (β : Type) where
  | sendFailed
  | timeout
  /-- `none` if the connection is lost -/
  | received (reply : Option (StubReply β))

/-- What the caller finds when the stub returns. -/
structure StubReturn where
  ev : Exception
  ret : Cell
  slots : List Slot
  deriving Repr

inductive DeMarshalRet where
  | sysExceptionIncomplete | sysExceptionComplete | exceptionComplete | retry | clean
  deriving DecidableEq, Repr

/-- An argument that comes back by `ORBit_demarshal_arg`, into a pointer of the caller. -/
def IArg.allocatedBack (a : IArg) : Bool :=
  a.direction = .argOut && !a.fixedSize && a.shape = .variable

/-- A slot with nothing of the reply in it. -/
def IArg.before (a : IArg) : Slot := ⟨a, if a.direction = .argIn then .filled else .unset⟩

section
variable {β : Type}

/-- `ORBit_handle_exception_array`. Without an id, the first declared exception is taken. -/
def handleExceptionArray (w : StubWire β) (m : IMethod) (reply : StubReply β) : Exception :=
  match w.repoId reply.body with
  | (none, _) => .system .marshal .maybe
  | (some id, rest) =>
      match reply.status with
      | .systemException =>
          match w.completed rest with
          | none => .system .marshal .maybe
          | some completed => .system (.other (id.getD 0)) completed
      | .userException =>
          match id, m.exceptions with
          | none, [] => .system .marshal .maybe
          | none, first :: _ => .user first
          | some id, types => if id ∈ types then .user id else .system .marshal .maybe
      | _ => .system .marshal .maybe

/-- The result. An exception ends `orbit_small_demarshal`. -/
def demarshalRet (w : Wire β) (m : IMethod) (buf : β) :
    Cell × β × Option (DeMarshalRet × Exception) :=
  match m.result with
  | none => (.unset, buf, none)
  | some tc =>
      let (buf, error) := w.demarshal tc.skipAlias buf
      if m.retShape tc = .variable then
        if error then (.unset, buf, some (.sysExceptionComplete, .none)) else (.filled, buf, none)
      else if error then (.torn, buf, some (.exceptionComplete, .system .marshal .maybe))
      else (.filled, buf, none)

/-- One round of the loop over the out and inout arguments; TRUE is
`goto demarshal_exception`. -/
def IArg.leave (w : Wire β) (a : IArg) (buf : β) : Cell × β × Bool :=
  if a.direction = .argIn then (.filled, buf, false)
  else
    let (buf, error) := w.demarshal a.tc.skipAlias buf
    if a.allocatedBack then (if error then .null else .filled, buf, false)
    else (if error then .torn else .filled, buf, error)

@[grind =] def leaveAll (w : Wire β) : List IArg → β → List Slot × Bool
  | [], _ => ([], false)
  | a :: as, buf =>
      match a.leave w buf with
      | (cell, _, true) => (⟨a, cell⟩ :: as.map IArg.before, true)
      | (cell, buf, false) =>
          let (slots, failed) := leaveAll w as buf
          (⟨a, cell⟩ :: slots, failed)

def orbitSmallDemarshal (w : StubWire β) (m : IMethod) :
    Option (StubReply β) → DeMarshalRet × StubReturn
  | none => (.sysExceptionIncomplete, ⟨.none, .unset, m.arguments.map IArg.before⟩)
  | some reply =>
      match reply.status with
      | .noException =>
          match demarshalRet w.toWire m reply.body with
          | (cell, _, some (status, ev)) => (status, ⟨ev, cell, m.arguments.map IArg.before⟩)
          | (cell, buf, none) =>
              match leaveAll w.toWire m.arguments buf with
              | (slots, true) => (.exceptionComplete, ⟨.system .marshal .maybe, cell, slots⟩)
              | (slots, false) => (.clean, ⟨.none, cell, slots⟩)
      | .locationForward =>
          if reply.forwarded then (.retry, ⟨.none, .unset, m.arguments.map IArg.before⟩)
          else (.sysExceptionIncomplete,
            ⟨.system .marshal .maybe, .unset, m.arguments.map IArg.before⟩)
      | _ => (.exceptionComplete,
          ⟨handleExceptionArray w m reply, .unset, m.arguments.map IArg.before⟩)

/-- `ORBit_small_invoke_stub` with a connection. Attempts that never come count as a lost
connection. -/
@[grind =] def invokeStub (w : StubWire β) (m : IMethod) : List (Attempt β) → StubReturn
  | [] =>
      if m.oneway then ⟨.none, .unset, m.arguments.map IArg.before⟩
      else ⟨.system .commFailure .maybe, .unset, m.arguments.map IArg.before⟩
  | .sendFailed :: _ => ⟨.system .commFailure .no, .unset, m.arguments.map IArg.before⟩
  | .timeout :: _ =>
      if m.oneway then ⟨.none, .unset, m.arguments.map IArg.before⟩
      else ⟨.system .timeout .no, .unset, m.arguments.map IArg.before⟩
  | .received reply :: attempts =>
      if m.oneway then ⟨.none, .unset, m.arguments.map IArg.before⟩
      else match orbitSmallDemarshal w m reply with
        | (.sysExceptionComplete, r) => { r with ev := .system .commFailure .yes }
        | (.sysExceptionIncomplete, r) => { r with ev := .system .commFailure .maybe }
        | (.exceptionComplete, r) => r
        | (.retry, _) => invokeStub w m attempts
        | (.clean, r) => r

/-- The reply without exception that ends a two-way call, behind those that forward it. -/
@[grind =] def answer : List (Attempt β) → Option (StubReply β)
  | .received (some reply) :: attempts =>
      match reply.status with
      | .noException => some reply
      | .locationForward => if reply.forwarded then answer attempts else none
      | _ => none
  | _ => none

/-- The argument is in the reply, and its demarshalling fails. -/
def IArg.lost (w : Wire β) (a : IArg) (buf : β) : Bool :=
  a.direction ≠ .argIn && (w.demarshal a.tc.skipAlias buf).2

@[grind =] def IArg.skip (w : Wire β) (a : IArg) (buf : β) : β :=
  if a.direction = .argIn then buf else (w.demarshal a.tc.skipAlias buf).1

/-- The arguments of a reply, each with whether it fails when those in front of it have taken
their parts of the message. -/
@[grind =] def outVerdicts (w : Wire β) : List IArg → β → List (IArg × Bool)
  | [], _ => []
  | a :: as, buf => (a, a.lost w buf) :: outVerdicts w as (a.skip w buf)

/-- A failure that the stub looks for. -/
def noticed (v : IArg × Bool) : Bool := v.2 && !v.1.allocatedBack

def retLost (w : Wire β) (m : IMethod) (buf : β) : Bool :=
  m.result.any fun tc => (w.demarshal tc.skipAlias buf).2

/-- What is left for the arguments behind the result. -/
def behindRet (w : Wire β) (m : IMethod) (buf : β) : β :=
  match m.result with
  | none => buf
  | some tc => (w.demarshal tc.skipAlias buf).1

def sendFails : List (Attempt β) → Bool
  | .sendFailed :: _ => true
  | _ => false

/-- The servant gets a value for every argument, and the context if there is one. If it is not
called, the client hears of a MARSHAL exception. -/
structure AdaptorRun.HandsOver (m : IMethod) (run : AdaptorRun) : Prop where
  slots : ∀ h ∈ run.handed, ∀ s ∈ h.1, s.arg.direction ≠ .argOut → s.cell = .filled
  context : m.hasContext = true → ∀ h ∈ run.handed, h.2 = true
  refused : run.handed = none → run.replies.map (·.ev) = [.system .marshal .no]

/-- A caller that sees no exception has the result and a value for every argument of the
reply. A reply that cannot be demarshalled comes out as MARSHAL or as a lost connection. -/
structure StubReturn.HandsBack (w : Wire β) (m : IMethod) (attempts : List (Attempt β))
    (r : StubReturn) : Prop where
  ret : r.ev = .none → ∀ tc ∈ m.result, r.ret = .filled
  slots : r.ev = .none → ∀ s ∈ r.slots, s.arg.direction ≠ .argIn → s.cell = .filled
  refused : m.oneway = false → ∀ reply ∈ answer attempts,
    (retLost w m reply.body = true ∨
      ∃ v ∈ outVerdicts w m.arguments (behindRet w m reply.body), v.2 = true) →
    r.ev = .system .marshal .maybe ∨ r.ev = .system .commFailure .yes

section
variable {w : Wire β}

theorem invokeAdaptor_handsOver (m : IMethod) (request : Request β) (result : Exception) :
    (invokeAdaptor w m request result).HandsOver m ↔
      (detected (verdicts w m.arguments request.body) = none →
        (∀ v ∈ verdicts w m.arguments request.body, v.2 = false) ∧
        (m.hasContext = true → (w.context (restOf w m.arguments request.body)).2 = false)) := by
  have hfailed := enterAll_failed (w := w) m.startTc m.arguments request.body
  unfold invokeAdaptor
  cases hd : detected (verdicts w m.arguments request.body) with
  | some k =>
    have hf : (enterAll w m.startTc m.arguments request.body).failed = true := by
      rw [hfailed, hd]
      rfl
    simp only [hf, if_true]
    constructor
    · simp
    · intro _
      refine ⟨?_, ?_, ?_⟩
      all_goals simp [AdaptorRun.finish, IMethod.sent]
  | none =>
    have hf : (enterAll w m.startTc m.arguments request.body).failed = false := by
      rw [hfailed, hd]
      rfl
    have hctx : (enterAll w m.startTc m.arguments request.body).buf =
        restOf w m.arguments request.body := enterAll_buf hd
    have hfilled := @enterAll_filled _ w m.startTc _ _ hd
    simp only [hf, hctx, Bool.false_eq_true, if_false]
    constructor
    · intro h _
      refine ⟨hfilled.mp (h.slots _ rfl), fun hm => ?_⟩
      have hc := h.context hm _ rfl
      simpa [hm] using hc
    · intro h
      obtain ⟨hv, hc⟩ := h trivial
      refine ⟨?_, ?_, ?_⟩
      · intro p hp
        obtain rfl : (_, _) = p := Option.some.inj hp
        exact hfilled.mpr hv
      · intro hm p hp
        obtain rfl : (_, _) = p := Option.some.inj hp
        simpa [hm] using hc hm
      · simp [AdaptorRun.finish]

theorem IArg.leave_eq (a : IArg) (buf : β) :
    a.leave w buf =
      (if a.lost w buf = false then .filled else if a.allocatedBack then .null else .torn,
       a.skip w buf, noticed (a, a.lost w buf)) := by
  unfold IArg.leave IArg.lost IArg.skip noticed
  by_cases hd : a.direction = .argIn
  · simp [hd]
  · cases ha : a.allocatedBack <;> cases h : (w.demarshal a.tc.skipAlias buf).2 <;> simp [hd, h]

theorem leaveAll_failed (args : List IArg) (buf : β) :
    (leaveAll w args buf).2 = (outVerdicts w args buf).any noticed := by
  induction args generalizing buf with
  | nil => rfl
  | cons a as ih =>
    simp only [leaveAll, a.leave_eq, outVerdicts, List.any_cons]
    cases noticed (a, a.lost w buf) with
    | true => rfl
    | false => simp [ih]

theorem leaveAll_filled {args : List IArg} {buf : β}
    (h : (outVerdicts w args buf).any noticed = false) :
    (∀ s ∈ (leaveAll w args buf).1, s.arg.direction ≠ .argIn → s.cell = .filled) ↔
      ∀ v ∈ outVerdicts w args buf, v.2 = false := by
  induction args generalizing buf with
  | nil => simp [leaveAll, outVerdicts]
  | cons a as ih =>
    simp only [outVerdicts, List.any_cons, Bool.or_eq_false_iff] at h
    simp only [leaveAll, a.leave_eq, h.1, outVerdicts, List.forall_mem_cons, ih h.2]
    refine and_congr_left fun _ => ?_
    by_cases hd : a.direction = .argIn
    · simp [hd, IArg.lost]
    · cases hl : a.lost w buf with
      | false => simp
      | true => cases ha : a.allocatedBack <;> simp [hd]

theorem demarshalRet_passed {m : IMethod} {buf : β} (h : retLost w m buf = false) :
    demarshalRet w m buf =
      (if m.result.isSome then .filled else .unset, behindRet w m buf, none) := by
  unfold retLost at h
  unfold demarshalRet behindRet
  cases hr : m.result with
  | none => rfl
  | some tc =>
    have hl : (w.demarshal tc.skipAlias buf).2 = false := by simpa [hr] using h
    simp [hl]

theorem demarshalRet_lost {m : IMethod} {buf : β} (h : retLost w m buf = true) :
    ∃ cell rest, demarshalRet w m buf = (cell, rest, some (.sysExceptionComplete, .none)) ∨
      demarshalRet w m buf = (cell, rest, some (.exceptionComplete, .system .marshal .maybe)) := by
  unfold retLost at h
  unfold demarshalRet
  cases hr : m.result with
  | none => simp [hr] at h
  | some tc =>
    have hl : (w.demarshal tc.skipAlias buf).2 = true := by simpa [hr] using h
    by_cases hv : m.retShape tc = .variable
    · exact ⟨_, _, .inl (by simp [hl, hv]; exact ⟨rfl, rfl⟩)⟩
    · exact ⟨_, _, .inr (by simp [hl, hv]; exact ⟨rfl, rfl⟩)⟩

end

section
variable {w : StubWire β} {m : IMethod}

theorem handleExceptionArray_ne_none (reply : StubReply β) :
    handleExceptionArray w m reply ≠ .none := by
  unfold handleExceptionArray
  repeat' split
  all_goals simp

theorem orbitSmallDemarshal_lost {reply : StubReply β} (hs : reply.status = .noException)
    (hl : retLost w.toWire m reply.body = true) : ∃ r,
    orbitSmallDemarshal w m (some reply) = (.sysExceptionComplete, r) ∨
      (orbitSmallDemarshal w m (some reply) = (.exceptionComplete, r) ∧
        r.ev = .system .marshal .maybe) := by
  obtain ⟨cell, rest, h | h⟩ := demarshalRet_lost hl
  · exact ⟨_, .inl (by simp only [orbitSmallDemarshal, hs, h]; rfl)⟩
  · refine ⟨⟨.system .marshal .maybe, cell, m.arguments.map IArg.before⟩, .inr ⟨?_, rfl⟩⟩
    simp only [orbitSmallDemarshal, hs, h]

theorem orbitSmallDemarshal_passed {reply : StubReply β} (hs : reply.status = .noException)
    (hl : retLost w.toWire m reply.body = false) :
    orbitSmallDemarshal w m (some reply) =
      if (outVerdicts w.toWire m.arguments (behindRet w.toWire m reply.body)).any noticed then
        (.exceptionComplete, ⟨.system .marshal .maybe, if m.result.isSome then .filled else .unset,
          (leaveAll w.toWire m.arguments (behindRet w.toWire m reply.body)).1⟩)
      else (.clean, ⟨.none, if m.result.isSome then .filled else .unset,
        (leaveAll w.toWire m.arguments (behindRet w.toWire m reply.body)).1⟩) := by
  have hfailed := leaveAll_failed (w := w.toWire) m.arguments (behindRet w.toWire m reply.body)
  simp only [orbitSmallDemarshal, hs, demarshalRet_passed hl, ← hfailed]
  cases hp : leaveAll w.toWire m.arguments (behindRet w.toWire m reply.body) with
  | mk slots failed => cases failed <;> rfl

/-- A reply without exception is not followed by another attempt. -/
theorem invokeStub_last {reply : StubReply β} (hs : reply.status = .noException)
    (attempts : List (Attempt β)) :
    invokeStub w m (.received (some reply) :: attempts) =
      invokeStub w m [.received (some reply)] := by
  cases hl : retLost w.toWire m reply.body with
  | true =>
    obtain ⟨r, h | ⟨h, -⟩⟩ := orbitSmallDemarshal_lost hs hl
    all_goals simp only [invokeStub, h]
  | false =>
    have h := orbitSmallDemarshal_passed hs hl
    cases hn : (outVerdicts w.toWire m.arguments (behindRet w.toWire m reply.body)).any noticed with
    | true | false => simp only [invokeStub, h, hn, if_true, Bool.false_eq_true, if_false]

/-- Forwarding replies do not show in what the stub returns. -/
theorem invokeStub_answered (ho : m.oneway = false) {attempts : List (Attempt β)}
    {reply : StubReply β} (h : answer attempts = some reply) :
    invokeStub w m attempts = invokeStub w m [.received (some reply)] ∧
      reply.status = .noException := by
  induction attempts with
  | nil => simp [answer] at h
  | cons a attempts ih =>
    cases a with
    | sendFailed | timeout => simp [answer] at h
    | received first =>
      cases first with
      | none => simp [answer] at h
      | some first =>
        cases hs : first.status with
        | noException =>
          obtain rfl : first = reply := by simpa [answer, hs] using h
          exact ⟨invokeStub_last hs attempts, hs⟩
        | locationForward =>
          cases hf : first.forwarded with
          | false => simp [answer, hs, hf] at h
          | true =>
            obtain ⟨heq, hn⟩ := ih (by simpa [answer, hs, hf] using h)
            refine ⟨?_, hn⟩
            rw [← heq]
            simp [invokeStub, ho, orbitSmallDemarshal, hs, hf]
        | userException | systemException | other => simp [answer, hs] at h

theorem invokeStub_unanswered (ho : m.oneway = false) {attempts : List (Attempt β)}
    (h : answer attempts = none) : (invokeStub w m attempts).ev ≠ .none := by
  induction attempts with
  | nil => simp [invokeStub, ho]
  | cons a attempts ih =>
    cases a with
    | sendFailed | timeout => simp [invokeStub, ho]
    | received first =>
      cases first with
      | none => simp [invokeStub, ho, orbitSmallDemarshal]
      | some first =>
        cases hs : first.status with
        | noException => simp [answer, hs] at h
        | locationForward =>
          cases hf : first.forwarded with
          | false => simp [invokeStub, ho, orbitSmallDemarshal, hs, hf]
          | true =>
            have hrest := ih (by simpa [answer, hs, hf] using h)
            simpa [invokeStub, ho, orbitSmallDemarshal, hs, hf] using hrest
        | userException | systemException | other =>
          simpa [invokeStub, ho, orbitSmallDemarshal, hs] using handleExceptionArray_ne_none first

theorem invokeStub_oneway (ho : m.oneway = true) (attempts : List (Attempt β)) :
    invokeStub w m attempts =
      ⟨if sendFails attempts then .system .commFailure .no else .none, .unset,
        m.arguments.map IArg.before⟩ := by
  cases attempts with
  | nil => simp [invokeStub, ho, sendFails]
  | cons a attempts => cases a <;> simp [invokeStub, ho, sendFails]

/-- A result that cannot be demarshalled is noticed. -/
theorem invokeStub_lost (ho : m.oneway = false) {reply : StubReply β}
    (hs : reply.status = .noException) (hl : retLost w.toWire m reply.body = true) :
    (invokeStub w m [.received (some reply)]).ev = .system .marshal .maybe ∨
      (invokeStub w m [.received (some reply)]).ev = .system .commFailure .yes := by
  obtain ⟨r, h | ⟨h, hev⟩⟩ := orbitSmallDemarshal_lost hs hl
  · right
    simp [invokeStub, ho, h]
  · left
    simp [invokeStub, ho, h, hev]

theorem invokeStub_handsBack (w : StubWire β) (m : IMethod) (attempts : List (Attempt β)) :
    (invokeStub w m attempts).HandsBack w.toWire m attempts ↔
      (m.oneway = true → sendFails attempts = false →
        m.result = none ∧ ∀ a ∈ m.arguments, a.direction = .argIn) ∧
      (m.oneway = false → ∀ reply ∈ answer attempts, retLost w.toWire m reply.body = false →
        (outVerdicts w.toWire m.arguments (behindRet w.toWire m reply.body)).any noticed = false →
        ∀ v ∈ outVerdicts w.toWire m.arguments (behindRet w.toWire m reply.body), v.2 = false) := by
  cases ho : m.oneway with
  | true =>
    rw [invokeStub_oneway ho]
    constructor
    · intro h
      refine ⟨fun _ hsent => ?_, by simp⟩
      have hret := h.ret (by simp [hsent])
      have hslots := h.slots (by simp [hsent])
      refine ⟨?_, fun a ha => ?_⟩
      · cases hr : m.result with
        | none => rfl
        | some tc => simp at hret hr; simp [hr] at hret
      · by_contra hd
        have hcell := hslots a.before (List.mem_map_of_mem ha) hd
        simp [IArg.before, hd] at hcell
    · rintro ⟨h, -⟩
      refine ⟨fun hev => ?_, fun hev => ?_, by simp [ho]⟩
      · have hsent : sendFails attempts = false := by simpa using hev
        simp [(h rfl hsent).1]
      · have hsent : sendFails attempts = false := by simpa using hev
        intro s hs hd
        obtain ⟨a, ha, rfl⟩ := List.mem_map.mp hs
        exact absurd ((h rfl hsent).2 a ha) hd
  | false =>
    cases ha : answer attempts with
    | none =>
      have hne := invokeStub_unanswered (w := w) ho ha
      constructor
      · simp
      · intro _
        exact ⟨fun h => absurd h hne, fun h => absurd h hne, by simp [ha]⟩
    | some reply =>
      obtain ⟨heq, hs⟩ := invokeStub_answered (w := w) ho ha
      rw [heq]
      cases hl : retLost w.toWire m reply.body with
      | true =>
        have hev := invokeStub_lost ho hs hl
        have hne : (invokeStub w m [.received (some reply)]).ev ≠ .none := by
          rcases hev with hev | hev <;> simp [hev]
        constructor
        · simp [hl]
        · intro _
          refine ⟨fun h => absurd h hne, fun h => absurd h hne, fun _ r hr _ => hev⟩
      | false =>
        have hd := orbitSmallDemarshal_passed (w := w) hs hl
        cases hn : (outVerdicts w.toWire m.arguments (behindRet w.toWire m reply.body)).any noticed with
        | true =>
          have hev : (invokeStub w m [.received (some reply)]).ev = .system .marshal .maybe := by
            simp [invokeStub, ho, hd, hn]
          constructor
          · intro _
            refine ⟨by simp, fun _ r hans _ hno => ?_⟩
            obtain rfl : reply = r := Option.some.inj hans
            rw [hn] at hno
            cases hno
          · intro _
            exact ⟨by simp [hev], by simp [hev], fun _ r hr _ => .inl hev⟩
        | false =>
          have hr : invokeStub w m [.received (some reply)] =
              ⟨.none, if m.result.isSome then .filled else .unset,
                (leaveAll w.toWire m.arguments (behindRet w.toWire m reply.body)).1⟩ := by
            simp only [invokeStub, ho, hd, hn, Bool.false_eq_true, if_false]
          rw [hr]
          constructor
          · intro h
            refine ⟨by simp, ?_⟩
            intro _ r hans _ _
            obtain rfl : reply = r := Option.some.inj hans
            exact (leaveAll_filled hn).mp (h.slots rfl)
          · rintro ⟨-, h⟩
            have hall := h rfl reply rfl hl hn
            refine ⟨?_, fun _ => (leaveAll_filled hn).mpr hall, ?_⟩
            · intro _ tc htc
              have htc : m.result = some tc := htc
              simp [htc]
            · intro _ r hans hlost
              obtain rfl : reply = r := Option.some.inj (ha.symm.trans hans)
              rcases hlost with hlost | ⟨v, hv, hlost⟩
              · rw [hl] at hlost
                cases hlost
              · rw [hall v hv] at hlost
                cases hlost

end

end

/-- `flagWire` for a stub; no exception can be read from it. -/
def flagStubWire : StubWire (List Bool) :=
  { flagWire with repoId := fun buf => (none, buf), completed := fun _ => none }

/-- One argument, a sequence. -/
def oneSequence (direction : ArgDirection) : IMethod :=
  { arguments := [⟨.basic .sequence, direction, false⟩]
    hasContext := false, exceptions := [], ret := none, oneway := false, fixedSize := false }

end ORBit2
