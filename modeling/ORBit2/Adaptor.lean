import ORBit2.CTypeCode
import ORBit2.RecvBuffer

/-! `ORBit_small_invoke_adaptor`: a request is taken apart, handed to the servant, answered,
and what it held is given back. -/

set_option autoImplicit false

namespace ORBit2

inductive CompletionStatus where
  | yes | no | maybe
  deriving DecidableEq, Repr

/-- The system exceptions that the ORB raises by itself, and the others. -/
inductive SystemException where
  | marshal | unknown | commFailure | timeout | transient | objAdapter | objectNotExist
  | noImplement | badOperation
  | other (repoId : Nat)
  deriving DecidableEq, Repr

/-- What a `CORBA_Environment` holds; a user exception goes by its repository id. -/
inductive Exception where
  | none
  | user (repoId : Nat)
  | system (id : SystemException) (completed : CompletionStatus)
  deriving DecidableEq, Repr

inductive ArgDirection where
  | argIn | argOut | argInout
  deriving DecidableEq, Repr

structure IArg where
  tc : CTypeCode
  direction : ArgDirection
  /-- `ORBit_I_COMMON_FIXED_SIZE` -/
  fixedSize : Bool
  deriving Repr

structure IMethod where
  arguments : List IArg
  /-- `contexts._length > 0` -/
  hasContext : Bool
  exceptions : List Nat
  /-- `none` is NULL -/
  ret : Option CTypeCode
  /-- `ORBit_I_METHOD_1_WAY` -/
  oneway : Bool
  /-- `ORBit_I_COMMON_FIXED_SIZE` -/
  fixedSize : Bool
  deriving Repr

/-- The branches of the switches over the kind of an argument or a result. -/
inductive Shape where
  /-- `BASE_TYPES` -/
  | base
  /-- `CORBA_tk_objref` and `CORBA_tk_TypeCode` -/
  | object
  /-- `CORBA_tk_string` and `CORBA_tk_wstring` -/
  | string
  /-- `STRUCT_UNION_TYPES`, for arguments also `CORBA_tk_array`, of fixed size -/
  | fixed
  | variable
  deriving DecidableEq, Repr

def Shape.ofKind (kind : TCKind) (fixedSize arrays : Bool) : Shape :=
  match kind with
  | .short | .long | .enum | .ushort | .ulong | .float | .double | .boolean | .char | .octet
  | .longlong | .ulonglong | .longdouble | .wchar => .base
  | .objref | .typeCode => .object
  | .string | .wstring => .string
  | .struct | .union | .except => if fixedSize then .fixed else .variable
  | .array => if fixedSize && arrays then .fixed else .variable
  | _ => .variable

def IArg.shape (a : IArg) : Shape := Shape.ofKind a.tc.skipAlias.kind a.fixedSize true

/-- The TypeCode an argument is demarshalled with. -/
def IArg.wireType (a : IArg) : CTypeCode := if a.shape = .variable then a.tc else a.tc.skipAlias

/-- The two demarshalling functions, on whatever is left of the message. They return what
they leave of it, and TRUE for failure. -/
structure Wire (β : Type) where
  /-- `ORBit_demarshal_value` -/
  demarshal : CTypeCode → β → β × Bool
  /-- `ORBit_Context_demarshal` -/
  context : β → β × Bool

/-- The memory `args [i]` points to, or `scratch [i]` for an out argument. -/
inductive Cell where
  | null
  /-- there is memory, with no value in it yet -/
  | unset
  /-- what a failed demarshal leaves -/
  | torn
  | filled
  deriving DecidableEq, Repr

structure Slot where
  arg : IArg
  cell : Cell
  deriving Repr

/-- How a value is given back. -/
inductive Release where
  /-- `CORBA_Object_release` -/
  | object
  /-- `ORBit_free` of the string -/
  | string
  /-- `ORBit_freekids_via_TypeCode` -/
  | kids
  /-- `ORBit_free` of an allocated block -/
  | block
  /-- `ORBit_Context_server_free` -/
  | context
  deriving DecidableEq, Repr

inductive Place where
  | arg (i : Nat)
  | ret
  | context
  deriving DecidableEq, Repr

structure SentReply where
  version : Version
  requestId : Nat
  ev : Exception
  deriving DecidableEq, Repr

structure Request (β : Type) where
  version : Version
  requestId : Nat
  body : β

structure AdaptorRun where
  /-- what the servant was called with: the slots, and whether the context was demarshalled -/
  handed : Option (List Slot × Bool)
  replies : List SentReply
  acquired : List (Place × Release)
  freed : List (Place × Release)
  /-- an argument was marshalled into the reply through NULL -/
  crashed : Bool
  /-- memory that was never filled in was followed or freed -/
  fault : Bool
  deriving Repr

section
variable {β : Type}

/-- One round of the loop over the arguments; TRUE is `goto demarshal_exception`. -/
def IArg.enter (w : Wire β) (a : IArg) (buf : β) : Cell × β × Bool :=
  match a.direction, a.shape with
  | .argOut, .variable => (.null, buf, false)
  | .argOut, _ => (.unset, buf, false)
  | _, .variable =>
      -- `ORBit_demarshal_arg` returns NULL, and nobody looks
      let (buf, error) := w.demarshal a.wireType buf
      (if error then .null else .filled, buf, false)
  | _, _ =>
      let (buf, error) := w.demarshal a.wireType buf
      (if error then .torn else .filled, buf, error)

/-- Where the loop ends: the variable `tc`, the slots, the message, and whether it failed. -/
structure Entered (β : Type) where
  tc : Option CTypeCode
  slots : List Slot
  buf : β
  failed : Bool

/-- The loop over the arguments. `args` and `scratch` are zeroed before it. -/
@[grind =] def enterAll (w : Wire β) : Option CTypeCode → List IArg → β → Entered β
  | tc, [], buf => ⟨tc, [], buf, false⟩
  | _, a :: as, buf =>
      match a.enter w buf with
      | (cell, buf, true) =>
          ⟨some a.tc.skipAlias, ⟨a, cell⟩ :: as.map (⟨·, .null⟩), buf, true⟩
      | (cell, buf, false) =>
          let e := enterAll w (some a.tc.skipAlias) as buf
          { e with slots := ⟨a, cell⟩ :: e.slots }

/-- A servant that returns without exception has filled in every out argument. -/
def Slot.serve (ok : Bool) (s : Slot) : Slot :=
  if s.arg.direction = .argOut ∧ ok then { s with cell := .filled } else s

/-- What the value in a slot asks for. An out argument of fixed size has a block from
the start, the others have what the servant put there. -/
def Slot.acquired (ok : Bool) (s : Slot) : Option Release :=
  match s.arg.direction, s.arg.shape with
  | _, .base => none
  | .argOut, .fixed => if s.cell = .null then none else some .block
  | .argOut, .object => if ok then some .object else none
  | .argOut, .string => if ok then some .string else none
  | .argOut, .variable => if ok then some .block else none
  | _, shape =>
      if s.cell ≠ .filled then none
      else match shape with
        | .object => some .object
        | .string => some .string
        | .fixed => some .kids
        | _ => some .block

inductive Cleaned where
  | nothing
  | release (r : Release)
  | fault
  deriving DecidableEq, Repr

/-- A release that follows the pointer to the slot first. -/
def Slot.deref (s : Slot) (r : Release) : Cleaned :=
  if s.cell = .filled then .release r else .fault

/-- `ORBit_free` of the block itself, which lets NULL pass. -/
def Slot.freeBlock (s : Slot) : Cleaned :=
  if s.cell = .null then .nothing else .release .block

/-- One round of the loop behind `clean_out`; `ok` is `ev->_major == CORBA_NO_EXCEPTION`. -/
def Slot.clean (ok : Bool) (s : Slot) : Cleaned :=
  match s.arg.direction, s.arg.shape with
  | _, .base => .nothing
  | .argOut, .object => if ok then s.deref .object else .nothing
  | .argOut, .string => if ok then s.deref .string else .nothing
  | .argOut, .fixed => s.freeBlock
  | .argOut, .variable => if ok then s.freeBlock else .nothing
  | _, .object => s.deref .object
  | _, .string => s.deref .string
  | _, .fixed =>
      if s.cell = .filled then .release .kids
      else if s.arg.tc.skipAlias.freekidsReads then .fault
      else .nothing
  | _, .variable => s.freeBlock

def Cleaned.release? : Cleaned → Option Release
  | .release r => some r
  | _ => none

/-- `ORBit_marshal_arg` of an inout argument in the reply. -/
def Slot.replyFaults (s : Slot) : Bool := s.arg.direction = .argInout && s.cell = .null

namespace IMethod

/-- The result, unless it is void. -/
def result (m : IMethod) : Option CTypeCode :=
  match m.ret with
  | none => none
  | some tc => if tc.kind = .void then none else some tc

def retShape (m : IMethod) (tc : CTypeCode) : Shape :=
  Shape.ofKind tc.skipAlias.kind m.fixedSize false

/-- What the result asks for: a block of fixed size from the start, else what the servant
returned. -/
def retAcquired (m : IMethod) (ok : Bool) : Option Release :=
  match m.result with
  | none => none
  | some tc =>
      match m.retShape tc with
      | .base => none
      | .fixed => some .block
      | .object => if ok then some .object else none
      | .string => if ok then some .string else none
      | .variable => if ok then some .block else none

/-- The clean-up of the result. It asks for the kind that `tc` was left with by the loops over
the arguments, and it switches over the kind of the result as it stands. -/
def cleanRet (m : IMethod) (tc : Option CTypeCode) (ok : Bool) : Option Release :=
  match m.ret with
  | none => none
  | some ret =>
      if tc.any (·.kind = .void) then none
      else match Shape.ofKind ret.kind m.fixedSize false with
        | .base => none
        | .object => if ok then some .object else none
        | .string => if ok then some .string else none
        | .fixed => some .block
        | .variable =>
            -- `pretval` is NULL unless the result is passed by pointer
            if ok ∧ (m.result.map m.retShape) = some .variable then some .block else none

/-- `tc` in front of the loops: the result without its aliases, or the void TypeCode. -/
def startTc (m : IMethod) : Option CTypeCode :=
  match m.ret with
  | none => none
  | some tc => if tc.kind = .void then some tc else some tc.skipAlias

/-- The exception that is sent: an undeclared one becomes UNKNOWN. -/
def sent (m : IMethod) : Exception → Exception
  | .user id => if id ∈ m.exceptions then .user id else .system .unknown .maybe
  | ev => ev

end IMethod

/-- Releases of the slots, by their index from `i` on. -/
@[grind =] def atArgs (f : Slot → Option Release) : Nat → List Slot → List (Place × Release)
  | _, [] => []
  | i, s :: slots => ((f s).map ((.arg i, ·))).toList ++ atArgs f (i+1) slots

/-- The end of `ORBit_small_invoke_adaptor`. The loops over a reply leave `tc` as the first
loop did. -/
def AdaptorRun.finish (m : IMethod) (request : Request β) (e : Entered β) (slots : List Slot)
    (handed : Option (List Slot × Bool)) (ev : Exception) : AdaptorRun :=
  let reached := handed.isNone || !m.oneway
  let ev := if reached then m.sent ev else ev
  let ok := ev = .none
  { handed
    replies := if reached then [⟨request.version, request.requestId, ev⟩] else []
    acquired :=
      (m.retAcquired ok).toList.map ((.ret, ·)) ++
      (if m.hasContext ∧ handed.any (·.2) then [(.context, .context)] else []) ++
      atArgs (·.acquired ok) 0 slots
    freed :=
      (if m.hasContext ∧ handed.any (·.2) then [(.context, .context)] else []) ++
      (if reached then (m.cleanRet e.tc ok).toList.map ((.ret, ·)) else []) ++
      atArgs (fun s => (s.clean ok).release?) 0 slots
    crashed := reached && ok && slots.any (·.replyFaults)
    fault :=
      slots.any (·.clean ok = .fault) ||
      (reached && ok && slots.any (·.replyFaults)) ||
      (m.hasContext && handed.any (!·.2)) }

/-- `ORBit_small_invoke_adaptor`, with a servant that ends in `result`. -/
def invokeAdaptor (w : Wire β) (m : IMethod) (request : Request β) (result : Exception) :
    AdaptorRun :=
  let e := enterAll w m.startTc m.arguments request.body
  if e.failed then .finish m request e e.slots none (.system .marshal .no)
  else
    let contextOk := if m.hasContext then !(w.context e.buf).2 else true
    .finish m request e (e.slots.map (·.serve (result = .none))) (some (e.slots, contextOk)) result

/-- The argument takes part in the request, and its demarshalling fails. -/
def IArg.refused (w : Wire β) (a : IArg) (buf : β) : Bool :=
  a.direction ≠ .argOut && (w.demarshal a.wireType buf).2

/-- What the argument leaves of the message. -/
def IArg.pass (w : Wire β) (a : IArg) (buf : β) : β :=
  if a.direction = .argOut then buf else (w.demarshal a.wireType buf).1

/-- The arguments, each with whether it is refused when those in front of it have taken
their parts of the message. -/
@[grind =] def verdicts (w : Wire β) : List IArg → β → List (IArg × Bool)
  | [], _ => []
  | a :: as, buf => (a, a.refused w buf) :: verdicts w as (a.pass w buf)

def restOf (w : Wire β) (args : List IArg) (buf : β) : β :=
  args.foldl (fun buf a => a.pass w buf) buf

/-- The first argument that is refused where the adaptor looks: in memory of its own. -/
def detected (vs : List (IArg × Bool)) : Option Nat :=
  vs.findIdx? fun v => v.2 && decide (v.1.shape ≠ .variable)

/-- The clean-up does not look into the slot of this argument. -/
def IArg.Harmless (a : IArg) : Prop :=
  a.direction = .argOut ∨ a.shape = .base ∨ a.shape = .variable ∨
    (a.shape = .fixed ∧ a.tc.skipAlias.freekidsReads = false)

instance (a : IArg) : Decidable a.Harmless := inferInstanceAs (Decidable (_ ∨ _))

/-- When the clean-up is in order. -/
structure Orderly (w : Wire β) (m : IMethod) (request : Request β) (result : Exception) : Prop where
  /-- from the argument that is refused on, no slot is looked into -/
  args : ∀ k ∈ detected (verdicts w m.arguments request.body), ∀ a ∈ m.arguments.drop k, a.Harmless
  /-- a context that is asked for is there -/
  context : detected (verdicts w m.arguments request.body) = none → m.hasContext = true →
    (w.context (restOf w m.arguments request.body)).2 = false
  /-- an inout argument that was refused unnoticed is not sent back -/
  inout : detected (verdicts w m.arguments request.body) = none → m.oneway = false →
    result = .none → ∀ v ∈ verdicts w m.arguments request.body, v.2 = true →
    v.1.direction ≠ .argInout
  /-- if there is a result to be freed, the clean-up of results is reached, no alias hides
  what is returned by value, and the type looked at last is not void -/
  ret : ∀ ret ∈ m.result, m.retShape ret ≠ .base →
    (m.retShape ret = .fixed ∨
      (detected (verdicts w m.arguments request.body) = none ∧ result = .none)) →
    (detected (verdicts w m.arguments request.body) ≠ none ∨ m.oneway = false) ∧
    (m.retShape ret = .variable ∨ ret.kind ≠ .alias) ∧
    (detected (verdicts w m.arguments request.body) ≠ none ∨
      ((m.arguments.getLast?.map (·.tc)).getD ret).skipAlias.kind ≠ .void)

/-- Nothing that was never filled in is followed or freed, and what the call acquired is
freed once, in its own way. -/
structure AdaptorRun.CleanedUp (run : AdaptorRun) : Prop where
  fault : run.fault = false
  freed : run.freed.Perm run.acquired
  once : (run.freed.map (·.1)).Nodup

section
variable {w : Wire β}

@[simp] theorem verdicts_nil (buf : β) : verdicts w [] buf = [] := rfl

@[simp] theorem verdicts_cons (a : IArg) (as : List IArg) (buf : β) :
    verdicts w (a :: as) buf = (a, a.refused w buf) :: verdicts w as (a.pass w buf) := rfl

@[simp] theorem restOf_cons (a : IArg) (as : List IArg) (buf : β) :
    restOf w (a :: as) buf = restOf w as (a.pass w buf) := rfl

/-- What one round of the loop does, in terms of the verdict. -/
theorem IArg.enter_eq (a : IArg) (buf : β) :
    a.enter w buf =
      (if a.direction = .argOut then (if a.shape = .variable then .null else .unset)
        else if a.refused w buf = false then .filled
        else if a.shape = .variable then .null else .torn,
       a.pass w buf, a.refused w buf && decide (a.shape ≠ .variable)) := by
  unfold IArg.enter IArg.refused IArg.pass
  cases a.direction <;> cases a.shape <;> cases h : (w.demarshal a.wireType buf).2 <;> simp [h]

theorem detected_cons (a : IArg) (r : Bool) (vs : List (IArg × Bool)) :
    detected ((a, r) :: vs) =
      if r && decide (a.shape ≠ .variable) then some 0 else (detected vs).map (· + 1) := by
  unfold detected
  rw [List.findIdx?_cons]

theorem refused_inPlace {a : IArg} {buf : β}
    (h : (a.refused w buf && decide (a.shape ≠ .variable)) = true) :
    a.refused w buf = true ∧ a.direction ≠ .argOut ∧ a.shape ≠ .variable := by
  simp only [Bool.and_eq_true, decide_eq_true_eq] at h
  refine ⟨h.1, fun ho => ?_, h.2⟩
  have hr := h.1
  simp [IArg.refused, ho] at hr

theorem enterAll_detected {tc : Option CTypeCode} {a : IArg} {as : List IArg} {buf : β}
    (h : (a.refused w buf && decide (a.shape ≠ .variable)) = true) :
    enterAll w tc (a :: as) buf =
      ⟨some a.tc.skipAlias, ⟨a, .torn⟩ :: as.map (⟨·, .null⟩), a.pass w buf, true⟩ := by
  obtain ⟨hr, hin, hs⟩ := refused_inPlace h
  simp [enterAll, IArg.enter_eq, hr, hin, hs]

theorem enterAll_passed {tc : Option CTypeCode} {a : IArg} {as : List IArg} {buf : β}
    (h : (a.refused w buf && decide (a.shape ≠ .variable)) = false) :
    enterAll w tc (a :: as) buf =
      let e := enterAll w (some a.tc.skipAlias) as (a.pass w buf)
      { e with slots := ⟨a, (a.enter w buf).1⟩ :: e.slots } := by
  have he : a.enter w buf = ((a.enter w buf).1, a.pass w buf, false) := by
    simp only [IArg.enter_eq, h]
  conv_lhs => rw [enterAll, he]

theorem enterAll_failed (tc : Option CTypeCode) (args : List IArg) (buf : β) :
    (enterAll w tc args buf).failed = (detected (verdicts w args buf)).isSome := by
  induction args generalizing tc buf with
  | nil => rfl
  | cons a as ih =>
    rw [verdicts_cons, detected_cons]
    cases h : a.refused w buf && decide (a.shape ≠ .variable) with
    | true => rw [enterAll_detected h]; rfl
    | false =>
      rw [enterAll_passed h]
      simp [ih]

theorem enterAll_buf {tc : Option CTypeCode} {args : List IArg} {buf : β}
    (h : detected (verdicts w args buf) = none) :
    (enterAll w tc args buf).buf = restOf w args buf := by
  induction args generalizing tc buf with
  | nil => rfl
  | cons a as ih =>
    rw [verdicts_cons, detected_cons] at h
    cases hd : a.refused w buf && decide (a.shape ≠ .variable) with
    | true =>
      rw [hd] at h
      simp at h
    | false =>
      rw [hd] at h
      rw [enterAll_passed hd, restOf_cons]
      exact ih (by simpa using h)

/-- The kind that `tc` ends with is void only if the last argument is, or the result of a
method without arguments. -/
theorem enterAll_tc (tc : Option CTypeCode) (args : List IArg) (buf : β) :
    (enterAll w tc args buf).tc.any (·.kind = .void) = true ↔
      detected (verdicts w args buf) = none ∧
        ((args.getLast?.map (·.tc.skipAlias)).or tc).any (·.kind = .void) = true := by
  induction args generalizing tc buf with
  | nil => simp [enterAll, detected]
  | cons a as ih =>
    rw [verdicts_cons, detected_cons]
    cases h : a.refused w buf && decide (a.shape ≠ .variable) with
    | true =>
      rw [enterAll_detected h]
      have hk : a.tc.skipAlias.kind ≠ .void := by
        intro hv
        simp [IArg.shape, hv, Shape.ofKind] at h
      simp [hk]
    | false =>
      rw [enterAll_passed h]
      simp only [ih]
      cases as with
      | nil => simp
      | cons b bs =>
        obtain ⟨l, hl⟩ : ∃ l, (b :: bs).getLast? = some l := ⟨_, List.getLast?_eq_getLast_of_ne_nil (by simp)⟩
        rw [List.getLast?_cons_cons, hl]
        simp

/-- The slot is as the loop over the arguments leaves it. -/
structure Slot.Entered (s : Slot) : Prop where
  filled : s.cell = .filled → s.arg.direction ≠ .argOut
  unset : s.cell = .unset → s.arg.direction = .argOut ∧ s.arg.shape ≠ .variable
  torn : s.cell = .torn → s.arg.direction ≠ .argOut ∧ s.arg.shape ≠ .variable

/-- The clean-up treats the slot as what it is. -/
def Slot.Settled (s : Slot) : Prop := s.cell = .filled ∨ s.arg.Harmless

theorem IArg.enter_entered (a : IArg) (buf : β) : Slot.Entered ⟨a, (a.enter w buf).1⟩ := by
  rw [IArg.enter_eq]
  constructor <;> cases a.direction <;> cases a.shape <;> cases a.refused w buf <;> simp

theorem enterAll_entered (tc : Option CTypeCode) (args : List IArg) (buf : β) :
    ∀ s ∈ (enterAll w tc args buf).slots, s.Entered := by
  induction args generalizing tc buf with
  | nil => simp [enterAll]
  | cons a as ih =>
    cases h : a.refused w buf && decide (a.shape ≠ .variable) with
    | true =>
      rw [enterAll_detected h]
      intro s hs
      rcases List.mem_cons.mp hs with rfl | hs
      · constructor
        · simp
        · simp
        · exact fun _ => (refused_inPlace h).2
      · obtain ⟨b, -, rfl⟩ := List.mem_map.mp hs
        constructor <;> simp
    | false =>
      rw [enterAll_passed h]
      intro s hs
      rcases List.mem_cons.mp hs with rfl | hs
      · exact a.enter_entered buf
      · exact ih _ _ s hs

/-- The slots that are not settled are those of the argument that was refused and of those
behind it. -/
theorem enterAll_settled (tc : Option CTypeCode) (args : List IArg) (buf : β) :
    (∀ s ∈ (enterAll w tc args buf).slots, s.Settled) ↔
      ∀ k ∈ detected (verdicts w args buf), ∀ a ∈ args.drop k, a.Harmless := by
  induction args generalizing tc buf with
  | nil => simp [enterAll, detected]
  | cons a as ih =>
    rw [verdicts_cons, detected_cons]
    cases h : a.refused w buf && decide (a.shape ≠ .variable) with
    | true =>
      rw [enterAll_detected h]
      simp [Slot.Settled]
    | false =>
      rw [enterAll_passed h]
      have ha : Slot.Settled ⟨a, (a.enter w buf).1⟩ := by
        unfold Slot.Settled IArg.Harmless
        rw [IArg.enter_eq]
        by_cases ho : a.direction = .argOut
        · exact .inr (.inl ho)
        · cases hr : a.refused w buf with
          | false => simp [ho]
          | true =>
            have hv : a.shape = .variable := by simpa [hr] using h
            exact .inr (.inr (.inr (.inl hv)))
      simp [ha, ih]

@[simp] theorem Slot.serve_arg (ok : Bool) (s : Slot) : (s.serve ok).arg = s.arg := by
  unfold Slot.serve
  split <;> rfl

/-- A settled slot gives back what it asks for. -/
theorem Slot.Settled.clean {s : Slot} (h : s.Settled) (he : s.Entered) (ok : Bool) :
    (s.serve ok).clean ok ≠ .fault ∧
      ((s.serve ok).clean ok).release? = (s.serve ok).acquired ok := by
  obtain ⟨a, cell⟩ := s
  have hf := he.filled
  have hu := he.unset
  have ht := he.torn
  unfold Slot.Settled IArg.Harmless at h
  unfold Slot.clean Slot.acquired Slot.serve
  cases hd : a.direction <;> cases hs : a.shape <;> cases ok <;> cases cell <;>
    simp_all [Slot.deref, Slot.freeBlock, Cleaned.release?]

theorem Slot.clean_unsettled {s : Slot} (h : ¬ s.Settled) (ok : Bool) :
    (s.serve ok).clean ok = .fault := by
  obtain ⟨a, cell⟩ := s
  unfold Slot.Settled IArg.Harmless at h
  unfold Slot.clean Slot.serve
  cases hd : a.direction <;> cases hs : a.shape <;> simp_all [Slot.deref]

theorem atArgs_congr {f g : Slot → Option Release} {slots : List Slot}
    (h : ∀ s ∈ slots, f s = g s) (i : Nat) : atArgs f i slots = atArgs g i slots := by
  induction slots generalizing i with
  | nil => rfl
  | cons s slots ih =>
    have hs : ∀ t ∈ slots, f t = g t := fun t ht => h t (List.mem_cons_of_mem _ ht)
    simp only [atArgs, h s List.mem_cons_self, ih hs]

theorem mem_atArgs {f : Slot → Option Release} {slots : List Slot} {i : Nat} {p : Place × Release}
    (h : p ∈ atArgs f i slots) : ∃ j, i ≤ j ∧ p.1 = .arg j := by
  induction slots generalizing i with
  | nil => simp [atArgs] at h
  | cons s slots ih =>
    rcases List.mem_append.mp h with h | h
    · cases hs : f s with
      | none => simp [hs] at h
      | some r =>
        obtain rfl : p = (.arg i, r) := by simpa [hs] using h
        exact ⟨i, Nat.le_refl i, rfl⟩
    · obtain ⟨j, hj, hp⟩ := ih h
      exact ⟨j, by omega, hp⟩

theorem atArgs_nodup (f : Slot → Option Release) (slots : List Slot) (i : Nat) :
    ((atArgs f i slots).map (·.1)).Nodup := by
  induction slots generalizing i with
  | nil => simp [atArgs]
  | cons s slots ih =>
    cases hs : f s with
    | none => simpa [atArgs, hs] using ih (i+1)
    | some r =>
      simp only [atArgs, hs, Option.map_some, Option.toList_some, List.cons_append, List.nil_append,
        List.map_cons, List.nodup_cons]
      refine ⟨fun hm => ?_, ih (i+1)⟩
      obtain ⟨p, hp, hpi⟩ := List.mem_map.mp hm
      obtain ⟨j, hj, hpj⟩ := mem_atArgs hp
      rw [hpj, Place.arg.injEq] at hpi
      omega

theorem Slot.serve_replyFaults (ok : Bool) (s : Slot) :
    (s.serve ok).replyFaults = s.replyFaults := by
  unfold Slot.replyFaults Slot.serve
  split
  · rename_i h
    simp [h.1]
  · rfl

theorem release_perm {o o' : Option Release} (place : Place) :
    (o.toList.map ((place, ·))).Perm (o'.toList.map ((place, ·))) ↔ o = o' := by
  cases o <;> cases o' <;> simp

theorem places_nodup {P : Prop} [Decidable P] (o : Option Release) (f : Slot → Option Release)
    (slots : List Slot) :
    ((if P then [(Place.context, Release.context)] else []).map (·.1) ++
      (o.toList.map ((Place.ret, ·))).map (·.1) ++ (atArgs f 0 slots).map (·.1)).Nodup := by
  have hargs : ∀ q ∈ (atArgs f 0 slots).map (·.1), ∃ j, q = .arg j := by
    intro q hq
    obtain ⟨p, hp, rfl⟩ := List.mem_map.mp hq
    obtain ⟨j, -, hj⟩ := mem_atArgs hp
    exact ⟨j, hj⟩
  have hctx : Place.context ∉ (atArgs f 0 slots).map (·.1) := by
    intro hm
    obtain ⟨j, hj⟩ := hargs _ hm
    cases hj
  have hret : Place.ret ∉ (atArgs f 0 slots).map (·.1) := by
    intro hm
    obtain ⟨j, hj⟩ := hargs _ hm
    cases hj
  have hnodup := atArgs_nodup f slots 0
  split <;> cases o <;> simp_all

/-- The clean-up of the slots, of what was sent, of the context and of the result go each
its own way. -/
theorem finish_cleanedUp {m : IMethod} {request : Request β} {e : Entered β}
    {handed : Option (List Slot × Bool)} {ev : Exception} {reached ok : Bool}
    (hent : ∀ s ∈ e.slots, s.Entered) (hreached : reached = (handed.isNone || !m.oneway))
    (hok : ok = decide ((if reached then m.sent ev else ev) = .none)) :
    (AdaptorRun.finish m request e (e.slots.map (·.serve ok)) handed ev).CleanedUp ↔
      (∀ s ∈ e.slots, s.Settled) ∧
      (reached = true → ok = true → ∀ s ∈ e.slots, s.replyFaults = false) ∧
      (m.hasContext = true → ∀ h ∈ handed, h.2 = true) ∧
      (if reached then m.cleanRet e.tc ok else none) = m.retAcquired ok := by
  have hret : (if reached then (m.cleanRet e.tc ok).toList.map ((Place.ret, ·)) else []) =
      (if reached then m.cleanRet e.tc ok else none).toList.map ((Place.ret, ·)) := by
    cases reached <;> rfl
  have hargs (hset : ∀ s ∈ e.slots, s.Settled) :
      atArgs (fun s => (s.clean ok).release?) 0 (e.slots.map (·.serve ok)) =
        atArgs (·.acquired ok) 0 (e.slots.map (·.serve ok)) := by
    refine atArgs_congr (fun s hs => ?_) 0
    obtain ⟨t, ht, rfl⟩ := List.mem_map.mp hs
    exact ((hset t ht).clean (hent t ht) ok).2
  unfold AdaptorRun.finish
  simp only [← hreached, ← hok, hret]
  constructor
  · rintro ⟨hfault, hfreed, -⟩
    simp only [Bool.or_eq_false_iff, List.any_map, List.any_eq_false, Bool.and_eq_false_iff] at hfault
    obtain ⟨⟨hclean, hreply⟩, hctx⟩ := hfault
    have hset : ∀ s ∈ e.slots, s.Settled := by
      intro s hs
      by_contra hn
      exact hclean s hs (by simpa using s.clean_unsettled hn ok)
    refine ⟨hset, ?_, ?_, ?_⟩
    · intro hr ho s hs
      rcases hreply with hreply | hreply
      · simp [hr, ho] at hreply
      · simpa [Slot.serve_replyFaults] using hreply s hs
    · intro hc w hw
      rcases hctx with hctx | hctx
      · simp [hc] at hctx
      · have hw : handed = some w := hw
        simpa [hw] using hctx
    · simp only [hargs hset, List.perm_append_right_iff] at hfreed
      have hswap := List.perm_append_comm.trans hfreed
      exact (release_perm .ret).mp ((List.perm_append_right_iff _).mp hswap)
  · rintro ⟨hset, hreply, hctx, heq⟩
    refine ⟨?_, ?_, ?_⟩
    · simp only [Bool.or_eq_false_iff, List.any_map, List.any_eq_false, Bool.and_eq_false_iff]
      refine ⟨⟨fun s hs => ?_, ?_⟩, ?_⟩
      · simpa using ((hset s hs).clean (hent s hs) ok).1
      · cases hr : reached with
        | false => exact .inl (.inl rfl)
        | true =>
          cases ho : ok with
          | false => exact .inl (.inr rfl)
          | true =>
            right
            intro s hs
            simp [Slot.serve_replyFaults, hreply hr ho s hs]
      · by_cases hc : m.hasContext = true
        · right
          cases handed with
          | none => rfl
          | some h => simp [hctx hc h rfl]
        · left
          simpa using hc
    · simp only [hargs hset, heq, List.perm_append_right_iff]
      exact List.perm_append_comm
    · simp only [hargs hset, heq, List.map_append]
      exact places_nodup (m.retAcquired ok) (·.acquired ok) _

/-- The result is freed as it should be if the clean-up of results is reached, `tc` does not
look void there, and no alias hides what is returned by value. -/
theorem cleanRet_eq (m : IMethod) (tc : Option CTypeCode) (reached ok : Bool) :
    (if reached then m.cleanRet tc ok else none) = m.retAcquired ok ↔
      ∀ ret ∈ m.result, m.retShape ret ≠ .base → m.retShape ret = .fixed ∨ ok = true →
        reached = true ∧ (m.retShape ret = .variable ∨ ret.kind ≠ .alias) ∧
          tc.any (·.kind = .void) = false := by
  unfold IMethod.cleanRet IMethod.retAcquired IMethod.result
  cases m.ret with
  | none => simp
  | some ret =>
    by_cases hv : ret.kind = .void
    · simp [hv, Shape.ofKind]
    · by_cases ha : ret.kind = .alias
      · simp only [ha, Shape.ofKind]
        cases hs : m.retShape ret <;> cases reached <;> cases ok <;>
          cases tc.any (·.kind = .void) <;> simp [hs, ha]
      · have hs : Shape.ofKind ret.kind m.fixedSize false = m.retShape ret := by
          unfold IMethod.retShape
          rw [CTypeCode.skipAlias_of_ne ha]
        simp only [hs]
        cases hs : m.retShape ret <;> cases reached <;> cases ok <;>
          cases tc.any (·.kind = .void) <;> simp [hs, ha, hv]

/-- If no refusal was noticed, the slots that were refused are those of the verdicts. -/
theorem enterAll_replyFaults {tc : Option CTypeCode} {args : List IArg} {buf : β}
    (h : detected (verdicts w args buf) = none) :
    (∀ s ∈ (enterAll w tc args buf).slots, s.replyFaults = false) ↔
      ∀ v ∈ verdicts w args buf, v.2 = true → v.1.direction ≠ .argInout := by
  induction args generalizing tc buf with
  | nil => simp [enterAll]
  | cons a as ih =>
    rw [verdicts_cons, detected_cons] at h
    cases hd : a.refused w buf && decide (a.shape ≠ .variable) with
    | true =>
      rw [hd] at h
      simp at h
    | false =>
      rw [hd] at h
      rw [enterAll_passed hd, verdicts_cons]
      have hrest : detected (verdicts w as (a.pass w buf)) = none := by simpa using h
      simp only [List.forall_mem_cons, ih hrest]
      refine and_congr_left fun _ => ?_
      unfold Slot.replyFaults
      rw [IArg.enter_eq]
      cases hr : a.refused w buf with
      | false => cases hdir : a.direction <;> simp
      | true =>
        have hv : a.shape = .variable := by simpa [hr] using hd
        cases hdir : a.direction <;> simp [hv]

theorem enterAll_filled {tc : Option CTypeCode} {args : List IArg} {buf : β}
    (h : detected (verdicts w args buf) = none) :
    (∀ s ∈ (enterAll w tc args buf).slots, s.arg.direction ≠ .argOut → s.cell = .filled) ↔
      ∀ v ∈ verdicts w args buf, v.2 = false := by
  induction args generalizing tc buf with
  | nil => simp [enterAll]
  | cons a as ih =>
    rw [verdicts_cons, detected_cons] at h
    cases hd : a.refused w buf && decide (a.shape ≠ .variable) with
    | true =>
      rw [hd] at h
      simp at h
    | false =>
      rw [hd] at h
      rw [enterAll_passed hd, verdicts_cons]
      have hrest : detected (verdicts w as (a.pass w buf)) = none := by simpa using h
      simp only [List.forall_mem_cons, ih hrest]
      refine and_congr_left fun _ => ?_
      rw [IArg.enter_eq]
      by_cases ho : a.direction = .argOut
      · simp [ho, IArg.refused]
      · cases hr : a.refused w buf with
        | false => simp [ho]
        | true =>
          have hv : a.shape = .variable := by simpa [hr] using hd
          simp [ho, hv]

theorem IMethod.sent_eq_none (m : IMethod) (ev : Exception) : m.sent ev = .none ↔ ev = .none := by
  unfold IMethod.sent
  cases ev with
  | user id => by_cases h : id ∈ m.exceptions <;> simp [h]
  | none | system => rfl

theorem invokeAdaptor_replies (w : Wire β) (m : IMethod) (request : Request β)
    (result : Exception) : ∃ ev, (invokeAdaptor w m request result).replies =
      if detected (verdicts w m.arguments request.body) ≠ none ∨ m.oneway = false then
        [⟨request.version, request.requestId, ev⟩]
      else [] := by
  have hfailed := enterAll_failed (w := w) m.startTc m.arguments request.body
  unfold invokeAdaptor AdaptorRun.finish
  cases hd : detected (verdicts w m.arguments request.body) with
  | some k =>
    rw [hd] at hfailed
    simp [hfailed]
  | none =>
    rw [hd] at hfailed
    cases ho : m.oneway with
    | true => exact ⟨.none, by simp [hfailed]⟩
    | false => simp [hfailed]

theorem invokeAdaptor_crashed (w : Wire β) (m : IMethod) (request : Request β)
    (result : Exception) : (invokeAdaptor w m request result).crashed = true ↔
      detected (verdicts w m.arguments request.body) = none ∧ m.oneway = false ∧
        result = .none ∧ ∃ v ∈ verdicts w m.arguments request.body,
          v.2 = true ∧ v.1.direction = .argInout := by
  have hfailed := enterAll_failed (w := w) m.startTc m.arguments request.body
  unfold invokeAdaptor AdaptorRun.finish
  cases hd : detected (verdicts w m.arguments request.body) with
  | some k =>
    rw [hd] at hfailed
    simp [hfailed, IMethod.sent]
  | none =>
    rw [hd] at hfailed
    have hslots := @enterAll_replyFaults _ w m.startTc m.arguments request.body hd
    have hany : (enterAll w m.startTc m.arguments request.body).slots.any (·.replyFaults) = true ↔
        ∃ v ∈ verdicts w m.arguments request.body, v.2 = true ∧ v.1.direction = .argInout := by
      rw [← not_iff_not, Bool.not_eq_true, List.any_eq_false]
      simpa using hslots
    have hserve (ok : Bool) : (fun s : Slot => (s.serve ok).replyFaults) = (·.replyFaults) :=
      funext fun s => s.serve_replyFaults ok
    cases ho : m.oneway with
    | true => simp [hfailed]
    | false => simp [hfailed, IMethod.sent_eq_none, List.any_map, Function.comp_def, hserve, ← hany]

end

end

/-- A wire on which every argument is one flag: it can be demarshalled, or not. -/
def flagWire : Wire (List Bool) :=
  ⟨fun _ buf => (buf.tail, !buf.headD false), fun buf => (buf.tail, !buf.headD false)⟩

def twoStrings : IMethod :=
  { arguments := [⟨.basic .string, .argIn, false⟩, ⟨.basic .string, .argIn, false⟩]
    hasContext := false, exceptions := [], ret := none, oneway := false, fixedSize := false }

def aliasedResult : IMethod :=
  { arguments := [], hasContext := false, exceptions := [], ret := some (.aliasOf (.basic .string))
    oneway := false, fixedSize := false }

end ORBit2
