import ORBit2.Adaptor

/-! A request on its way from `ORBit_handle_request` through the POA to the servant, and the
replies that are sent on the way. -/

set_option autoImplicit false

namespace ORBit2

inductive RequestProcessing where
  | activeObjectMapOnly | defaultServant | servantManager
  deriving DecidableEq, Repr

inductive POAManagerState where
  | holding | active | discarding | inactive
  deriving DecidableEq, Repr

inductive ThreadHint where
  | none | perObject | perRequest | perPoa | perConnection | onewayAtIdle | allAtIdle | onContext
  deriving DecidableEq, Repr

/-- What `incarnate` or `preinvoke` of the servant manager returns. -/
structure Incarnation where
  servant : Bool
  /-- `_private` is not NULL: the servant already serves an object -/
  inUse : Bool
  ev : Exception
  deriving DecidableEq, Repr

/-- The search for the skeleton of an operation, and the method it leaves in `m_data`. -/
inductive Lookup where
  | found (m : IMethod)
  /-- there is a skeleton, but no implementation -/
  | notImplemented (m : Option IMethod)
  | badOperation (m : Option IMethod)
  deriving Repr

/-- The object adaptor a request is for, and what the request meets there. -/
structure Poa where
  processing : RequestProcessing
  nonRetain : Bool
  /-- `ORBit_POA_check_policies` refuses the other combination -/
  policies : ¬ (nonRetain = true ∧ processing = .activeObjectMapOnly)
  uniqueId : Bool
  /-- `PortableServer_SINGLE_THREAD_MODEL` -/
  singleThread : Bool
  threadHint : ThreadHint
  /-- `giop_thread_safe` and `giop_thread_io` -/
  threadSafe : Bool
  threadIo : Bool
  /-- the object key names an object of the map -/
  found : Bool
  /-- an object can be created for the id: it has the length of a system id, or the POA does
  not assign the ids -/
  idFits : Bool
  /-- the object has a servant; one that is created has none -/
  servant : Bool
  /-- `none`: the POA or its manager is gone -/
  manager : Option POAManagerState
  /-- there is a default servant, and the assertions of `ORBit_POA_activate_object_T` hold -/
  activates : Bool
  /-- a servant manager has been set -/
  hasManager : Bool
  incarnation : Incarnation
  lookup : Lookup
  /-- how the servant returns -/
  result : Exception
  /-- how `postinvoke` returns -/
  postinvoke : Exception

structure IncomingRequest (β : Type) extends Request β where
  responseExpected : Bool
  /-- `recv_buffer->connection->giop_version` -/
  cnxVersion : Version
  /-- `giop_recv_buffer_get_objkey` returns a key -/
  hasKey : Bool
  /-- `ORBit_forw_bind_find` returns an object -/
  forward : Bool

/-- A message that answers a request. -/
inductive Answer where
  | reply (r : SentReply)
  /-- `GIOP_LOCATION_FORWARD` -/
  | forward (version : Version) (requestId : Nat)
  deriving DecidableEq, Repr

def Answer.version : Answer → Version
  | .reply r => r.version
  | .forward version _ => version

def Answer.requestId : Answer → Nat
  | .reply r => r.requestId
  | .forward _ requestId => requestId

inductive Handled where
  /-- kept in `held_requests` -/
  | held
  | crashed
  | done (answers : List Answer) (ev : Exception)
  deriving Repr

section
variable {β : Type}

/-- `return_exception` on a request from outside, with
`ORBit_recv_buffer_return_sys_exception`. Only a system exception is sent. -/
def returnException (r : IncomingRequest β) (m : Option IMethod) (ev : Exception) : List Answer :=
  match ev with
  | .system _ _ =>
      if m.any (·.oneway) then [] else [.reply ⟨r.cnxVersion, r.requestId, ev⟩]
  | _ => []

/-- What the state of the manager raises. -/
def Poa.managerException (p : Poa) : Exception :=
  match p.manager with
  | none => .system .objectNotExist .no
  | some .discarding => .system .transient .no
  | some .inactive => .system .objAdapter .no
  | some .holding | some .active => .none

/-- `ORBit_POA_ServantManager_use_servant` -/
def Poa.useServantManager (p : Poa) : Bool × Exception :=
  if p.incarnation.servant ∧ p.uniqueId ∧ p.incarnation.inUse then
    (false, .system .objAdapter .no)
  else (p.incarnation.servant, p.incarnation.ev)

/-- The servant for the object, if there is one, and what was raised on the way. -/
def Poa.useServant (p : Poa) : Option (Bool × Exception) :=
  if p.found ∧ p.servant then some (true, .none)
  else match p.processing with
    | .activeObjectMapOnly => some (false, .none)
    | .defaultServant => if p.activates then some (true, .none) else none
    | .servantManager => if p.hasManager then some p.useServantManager else none

/-- The operation is looked for and called: the answers, unless it crashes. -/
def Poa.invoke (p : Poa) (w : Wire β) (r : IncomingRequest β) : Option (List Answer) :=
  match p.lookup with
  | .found m =>
      let run := invokeAdaptor w m r.toRequest p.result
      if run.crashed then none else some (run.replies.map .reply)
  | .notImplemented m => some (returnException r m (.system .noImplement .no))
  | .badOperation m => some (returnException r m (.system .badOperation .no))

/-- `ORBit_POAObject_handle_request` on a request from outside. The environment is emptied
behind the call, but not on the way to `clean_out`. -/
def Poa.handleRequest (p : Poa) (w : Wire β) (r : IncomingRequest β) : Handled :=
  if p.manager = some .holding then .held
  else if p.managerException ≠ .none then
    .done (returnException r none p.managerException) p.managerException
  else
    match p.useServant with
    | none => .crashed
    | some (servant, ev) =>
        let ev := if ev = .none ∧ ¬ servant then .system .objectNotExist .no else ev
        if ev ≠ .none then .done (returnException r none ev) ev
        else
          match p.invoke w r with
          | none => .crashed
          | some answers =>
              .done answers
                (if p.nonRetain ∧ p.processing = .servantManager then p.postinvoke else .none)

/-- The threads a request can be handed to; the others get nothing. -/
inductive Runner where
  | here | mainThread | pool | idle
  deriving DecidableEq, Repr

/-- `poa_recv_is_oneway`, for an object with a servant -/
def Poa.recvIsOneway (p : Poa) : Bool :=
  match p.lookup with
  | .found m => m.oneway
  | .notImplemented m | .badOperation m => m.any (·.oneway)

/-- The two switches of `ORBit_POA_handle_request` over the thread policy. `none` stands for a
failed assertion, or the servant of an object without one. -/
def Poa.schedule (p : Poa) : Option Runner :=
  let queued : Runner := if p.threadIo then .mainThread else .here
  if p.singleThread then some queued
  else match p.threadHint with
    | .none => some queued
    | .perObject | .perPoa | .perConnection | .perRequest =>
        if p.threadIo then some .pool else none
    | .onewayAtIdle =>
        if p.found ∧ p.servant then
          some (if p.recvIsOneway ∨ ¬ p.threadSafe then .idle else .mainThread)
        else none
    | .allAtIdle | .onContext => some .idle

/-- `ORBit_POAObject_invoke_incoming_request`, with `poa_handle_request` in front of it. -/
def Poa.incomingRequest (p : Poa) (w : Wire β) (r : IncomingRequest β) : Handled :=
  if ¬ p.found ∧ p.processing = .activeObjectMapOnly then
    .done (returnException r none (.system .objectNotExist .no)) .none
  else if ¬ p.found ∧ ¬ p.idFits then .crashed
  else match p.schedule with
    | none => .crashed
    | some _ =>
        match p.handleRequest w r with
        | .done answers ev => .done (answers ++ returnException r none ev) .none
        | handled => handled

/-- `ORBit_handle_request`; `poa` is what `ORBit_adaptor_find` finds. -/
def handleRequest (poa : Option Poa) (w : Wire β) (r : IncomingRequest β) : Handled :=
  match poa, r.hasKey with
  | some p, true => p.incomingRequest w r
  | _, _ =>
      if r.forward then .done [.forward r.version r.requestId] .none
      else .done (returnException r none (.system .objectNotExist .no)) .none

/-- One reply with the id and the version of the request if it expects one, and none if it does
not; a request that is kept is not answered yet. -/
def Handled.AnsweredOnce (r : IncomingRequest β) : Handled → Prop
  | .held => True
  | .crashed => False
  | .done answers _ =>
      if r.responseExpected then
        ∃ a, answers = [a] ∧ a.version = r.version ∧ a.requestId = r.requestId
      else answers = []

/-- A system exception that the connection's version suits is an answer. -/
def IncomingRequest.WantsException (r : IncomingRequest β) : Prop :=
  r.responseExpected = true ∧ r.cnxVersion = r.version

/-- A servant is found for the object and nothing is raised. -/
def Poa.Served (p : Poa) : Prop :=
  (p.found = true ∧ p.servant = true) ∨
  (p.processing = .defaultServant ∧ p.activates = true) ∨
  (p.processing = .servantManager ∧ p.hasManager = true ∧ p.incarnation.servant = true ∧
    ¬ (p.uniqueId = true ∧ p.incarnation.inUse = true) ∧ p.incarnation.ev = .none)

/-- The servant manager raises a user exception, such as ForwardRequest. -/
def Poa.Declined (p : Poa) : Prop :=
  ¬ (p.found = true ∧ p.servant = true) ∧ p.processing = .servantManager ∧ p.hasManager = true ∧
  ¬ (p.incarnation.servant = true ∧ p.uniqueId = true ∧ p.incarnation.inUse = true) ∧
  ∃ id, p.incarnation.ev = .user id

/-- `postinvoke` is called and raises a system exception. -/
def Poa.RaisesBehind (p : Poa) : Prop :=
  p.nonRetain = true ∧ p.processing = .servantManager ∧ ∃ id c, p.postinvoke = .system id c

/-- What the operation does about the request: an answer, and not through NULL. -/
def Poa.Answers (p : Poa) (w : Wire β) (r : IncomingRequest β) : Prop :=
  match p.lookup with
  | .found m => detected (verdicts w m.arguments r.body) ≠ none ∨ m.oneway = false
  | .notImplemented m | .badOperation m => m.any (·.oneway) = false

def Poa.AnswersThroughNull (p : Poa) (w : Wire β) (r : IncomingRequest β) : Prop :=
  ∃ m, p.lookup = .found m ∧ detected (verdicts w m.arguments r.body) = none ∧
    m.oneway = false ∧ p.result = .none ∧
    ∃ v ∈ verdicts w m.arguments r.body, v.2 = true ∧ v.1.direction = .argInout

/-- Each of the steps on the way answers once, or not at all, as the request asks. -/
def AnswersInOrder (poa : Option Poa) (w : Wire β) (r : IncomingRequest β) : Prop :=
  match poa, r.hasKey with
  | some p, true =>
      if ¬ p.found ∧ p.processing = .activeObjectMapOnly then r.WantsException
      else
        (p.found = true ∨ p.idFits = true) ∧ p.schedule.isSome ∧
        (p.manager = some .holding ∨
          (p.manager = some .active ∧
            ((p.Declined ∧ r.responseExpected = false) ∨
              (p.Served ∧ ¬ p.AnswersThroughNull w r ∧
                ((p.RaisesBehind ∧ ¬ p.Answers w r ∧ r.WantsException) ∨
                  (¬ p.RaisesBehind ∧ (p.Answers w r ↔ r.responseExpected = true) ∧
                    ((∃ m, p.lookup = .found m) ∨ r.responseExpected = false ∨
                      r.cnxVersion = r.version)))))))
  | _, _ => r.responseExpected = true ∧ (r.forward = true ∨ r.cnxVersion = r.version)

section
variable {w : Wire β} {p : Poa} {r : IncomingRequest β}

/-- A system exception raised before the method is known. -/
theorem returnException_system (id : SystemException) (c : CompletionStatus) :
    returnException r none (.system id c) = [.reply ⟨r.cnxVersion, r.requestId, .system id c⟩] :=
  rfl

theorem answeredOnce_exception (id : SystemException) (c : CompletionStatus) (ev : Exception) :
    (Handled.done (returnException r none (.system id c)) ev).AnsweredOnce r ↔ r.WantsException := by
  unfold Handled.AnsweredOnce IncomingRequest.WantsException
  cases r.responseExpected <;> simp [returnException_system, Answer.version, Answer.requestId]

/-- It is sent again when the environment comes back. -/
theorem not_answeredOnce_twice (id : SystemException) (c : CompletionStatus) (ev : Exception) :
    ¬ (Handled.done (returnException r none (.system id c) ++
      returnException r none (.system id c)) ev).AnsweredOnce r := by
  unfold Handled.AnsweredOnce
  cases r.responseExpected <;> simp [returnException_system]

theorem served_iff : p.Served ↔ p.useServant = some (true, .none) := by
  unfold Poa.Served Poa.useServant Poa.useServantManager
  by_cases hs : p.found = true ∧ p.servant = true
  · simp [hs]
  · rw [if_neg hs]
    cases hp : p.processing with
    | activeObjectMapOnly => simp [hs]
    | defaultServant => cases p.activates <;> simp [hs]
    | servantManager =>
      cases p.hasManager with
      | false => simp [hs]
      | true =>
        by_cases hu : p.incarnation.servant = true ∧ p.uniqueId = true ∧ p.incarnation.inUse = true
        · simp [hs, hu]
        · simp only [hs, hu, if_true, if_false]
          grind

theorem declined_iff : p.Declined ↔ ∃ servant id, p.useServant = some (servant, .user id) := by
  unfold Poa.Declined Poa.useServant Poa.useServantManager
  by_cases hs : p.found = true ∧ p.servant = true
  · simp [hs]
  · rw [if_neg hs]
    cases hp : p.processing with
    | activeObjectMapOnly => simp
    | defaultServant => cases p.activates <;> simp
    | servantManager =>
      cases p.hasManager with
      | false => simp
      | true =>
        by_cases hu : p.incarnation.servant = true ∧ p.uniqueId = true ∧ p.incarnation.inUse = true
        · simp [hu]
        · simp [hs, hu]

theorem invoke_crashed (h : p.AnswersThroughNull w r) : p.invoke w r = none := by
  obtain ⟨m, hm, h⟩ := h
  unfold Poa.invoke
  simp [hm, (invokeAdaptor_crashed w m r.toRequest p.result).mpr h]

/-- The answer to an operation that is called comes in the version of the request, that to
one that is not in the version of the connection. -/
theorem invoke_answers (h : ¬ p.AnswersThroughNull w r) : ∃ answers, p.invoke w r = some answers ∧
    (¬ p.Answers w r → answers = []) ∧
    (p.Answers w r → ∃ a, answers = [a] ∧ a.requestId = r.requestId ∧
      (a.version = r.version ↔ (∃ m, p.lookup = .found m) ∨ r.cnxVersion = r.version)) := by
  unfold Poa.invoke Poa.Answers
  cases hl : p.lookup with
  | found m =>
    have hc : (invokeAdaptor w m r.toRequest p.result).crashed ≠ true := by
      intro hc
      exact h ⟨m, hl, (invokeAdaptor_crashed w m r.toRequest p.result).mp hc⟩
    obtain ⟨ev, hr⟩ := invokeAdaptor_replies w m r.toRequest p.result
    refine ⟨_, if_neg hc, fun hn => ?_, fun ha => ?_⟩
    · simp [hr, if_neg hn]
    · refine ⟨.reply ⟨r.version, r.requestId, ev⟩, by simp [hr, if_pos ha], rfl, ?_⟩
      simp [Answer.version]
  | notImplemented m | badOperation m =>
    refine ⟨_, rfl, fun hn => ?_, fun ha => ?_⟩
    · simp at hn
      simp [returnException, hn]
    · simp only [returnException, ha]
      exact ⟨_, rfl, rfl, by simp [Answer.version]⟩

/-- The end of `ORBit_POAObject_invoke_incoming_request` behind an operation. -/
theorem answeredOnce_behind {answers : List Answer} {post ev : Exception} {P : Prop}
    (hn : ¬ P → answers = [])
    (ha : P → ∃ a, answers = [a] ∧ a.requestId = r.requestId ∧
      (a.version = r.version ↔ (∃ m, p.lookup = .found m) ∨ r.cnxVersion = r.version)) :
    (Handled.done (answers ++ returnException r none post) ev).AnsweredOnce r ↔
      ((∃ id c, post = .system id c) ∧ ¬ P ∧ r.WantsException) ∨
      ((¬ ∃ id c, post = .system id c) ∧ (P ↔ r.responseExpected = true) ∧
        ((∃ m, p.lookup = .found m) ∨ r.responseExpected = false ∨ r.cnxVersion = r.version)) := by
  by_cases hP : P
  · obtain ⟨a, rfl, hid, hv⟩ := ha hP
    cases post with
    | system id c =>
      unfold Handled.AnsweredOnce
      cases r.responseExpected <;> simp [returnException_system, hP]
    | none | user =>
      unfold Handled.AnsweredOnce
      cases r.responseExpected <;> simp [returnException, hP, hid, hv]
  · rw [hn hP]
    cases post with
    | system id c => simp [answeredOnce_exception, hP]
    | none | user =>
      unfold Handled.AnsweredOnce
      cases r.responseExpected <;> simp [returnException, hP]

/-- A request for an object of an active POA. -/
theorem active_answeredOnce (hm : p.manager = some .active) :
    (match p.handleRequest w r with
      | .done answers ev => Handled.done (answers ++ returnException r none ev) .none
      | handled => handled).AnsweredOnce r ↔
    (p.Declined ∧ r.responseExpected = false) ∨
      (p.Served ∧ ¬ p.AnswersThroughNull w r ∧
        ((p.RaisesBehind ∧ ¬ p.Answers w r ∧ r.WantsException) ∨
          (¬ p.RaisesBehind ∧ (p.Answers w r ↔ r.responseExpected = true) ∧
            ((∃ m, p.lookup = .found m) ∨ r.responseExpected = false ∨
              r.cnxVersion = r.version)))) := by
  have hman : p.managerException = .none := by simp [Poa.managerException, hm]
  unfold Poa.handleRequest
  rw [if_neg (by simp [hm]), if_neg (by simp [hman]), served_iff, declined_iff]
  cases hu : p.useServant with
  | none => simp [Handled.AnsweredOnce]
  | some found =>
    obtain ⟨servant, ev⟩ := found
    cases ev with
    | user id =>
      unfold Handled.AnsweredOnce
      cases r.responseExpected <;> simp [returnException]
    | system id c =>
      have h := not_answeredOnce_twice (r := r) id c .none
      simpa using h
    | none =>
      cases servant with
      | false =>
        have h := not_answeredOnce_twice (r := r) .objectNotExist .no .none
        simpa using h
      | true =>
        simp only [not_true, and_false, if_false, ne_eq]
        by_cases hc : p.AnswersThroughNull w r
        · simp [invoke_crashed hc, hc, Handled.AnsweredOnce]
        · obtain ⟨answers, hi, hn, ha⟩ := invoke_answers hc
          simp only [hi]
          have hpost : (∃ id c, (if p.nonRetain ∧ p.processing = .servantManager then p.postinvoke
              else .none) = Exception.system id c) ↔ p.RaisesBehind := by
            unfold Poa.RaisesBehind
            by_cases hb : p.nonRetain = true ∧ p.processing = .servantManager
            · simp [hb]
            · rw [if_neg hb]
              simp only [reduceCtorEq, exists_false, false_iff]
              exact fun h => hb ⟨h.1, h.2.1⟩
          rw [answeredOnce_behind hn ha, hpost]
          simp [hc]

/-- A manager that lets nothing through. -/
theorem not_answeredOnce_refused {state : Option POAManagerState} (hm : p.manager = state)
    (hs : state ≠ some .active ∧ state ≠ some .holding) :
    ¬ (match p.handleRequest w r with
      | .done answers ev => Handled.done (answers ++ returnException r none ev) .none
      | handled => handled).AnsweredOnce r := by
  obtain ⟨id, c, hex⟩ : ∃ id c, p.managerException = .system id c := by
    unfold Poa.managerException
    rw [hm]
    cases state with
    | none => exact ⟨_, _, rfl⟩
    | some state =>
      cases state with
      | active | holding => simp at hs
      | discarding | inactive => exact ⟨_, _, rfl⟩
  have hheld : p.manager ≠ some .holding := by
    rw [hm]
    exact hs.2
  unfold Poa.handleRequest
  rw [if_neg hheld, if_pos (by simp [hex]), hex]
  exact not_answeredOnce_twice id c .none

end

end

/-- A POA with one active object, whose manager discards requests. -/
def discardingPoa : Poa :=
  { processing := .activeObjectMapOnly, nonRetain := false, policies := by decide
    uniqueId := true, singleThread := false, threadHint := .none, threadSafe := false
    threadIo := false, found := true, idFits := true, servant := true
    manager := some .discarding, activates := true, hasManager := false
    incarnation := ⟨false, false, .none⟩, lookup := .badOperation none, result := .none
    postinvoke := .none }

end ORBit2
