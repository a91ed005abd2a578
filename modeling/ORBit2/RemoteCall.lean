import ORBit2.Adaptor
import ORBit2.HeaderRoundTrip

/-! A call of a method in another process: `ORBit_small_invoke_stub` marshals the arguments,
`ORBit_small_invoke_adaptor` takes them off the message, runs the servant and marshals what it
leaves, and the stub takes that off the reply. Both ends see nothing but bytes of each other. -/

set_option autoImplicit false

namespace ORBit2
open Words

/-- `while (tc->kind == CORBA_tk_alias) tc = tc->subtypes [0];` -/
@[grind =] def TypeCode.skipAlias : TypeCode → TypeCode
  | .alias tc => tc.skipAlias
  | tc => tc

mutual

/-- The types for which `ORBit_gather_alloc_info` is 0, so that `ORBit_alloc_by_tc` gives NULL. -/
@[grind =] def TypeCode.sizeless : TypeCode → Bool
  | .null => true
  | .struct tcs | .except tcs => allSizeless tcs
  | .array tc n => tc.sizeless || n == 0
  | .alias tc => tc.sizeless
  | _ => false

@[grind =] def allSizeless : List TypeCode → Bool
  | [] => true
  | tc :: tcs => tc.sizeless && allSizeless tcs

end

namespace RemoteCall

/-- `ORBit_IArg` -/
structure Argument where
  tc : TypeCode
  direction : ArgDirection
  /-- `ORBit_I_COMMON_FIXED_SIZE` -/
  fixedSize : Bool

/-- A TypeCode of `m_data->exceptions`. -/
structure ExceptionType where
  repoId : List UInt8
  tc : TypeCode

/-- `ORBit_IMethod`, of a method without contexts. -/
structure Method where
  name : List UInt8
  arguments : List Argument
  /-- `none` is NULL, or `CORBA_tk_void` -/
  ret : Option TypeCode
  exceptions : List ExceptionType
  /-- `ORBit_I_METHOD_1_WAY` -/
  oneway : Bool
  /-- `ORBit_I_COMMON_FIXED_SIZE` -/
  fixedSize : Bool

/-- What a servant leaves: its result with the inout and out arguments, or what is in its
`CORBA_Environment`. -/
inductive Outcome where
  | returned (ret : Option Value) (outs : List Value)
  | user (id : List UInt8) (value : Value)
  | system (id : List UInt8) (minor completed : Nat)

/-- What the caller of the stub finds. A NULL id or value is `none`. -/
inductive Received where
  | returned (ret : Option Value) (outs : List Value)
  | user (id : List UInt8) (value : Option Value)
  | system (id : Option (List UInt8)) (minor completed : Nat)
  /-- the reply is `GIOP_LOCATION_FORWARD` -/
  | forward

/-- Why a loop over arguments ended early. -/
inductive Failure where
  /-- `goto demarshal_exception` -/
  | refused
  /-- `ORBit_demarshal_arg` gave NULL, and the loop went on from wherever that left the buffer;
  this is not followed here -/
  | null
  | undefined
  deriving DecidableEq, Repr

def unknownId : List UInt8 := "IDL:omg.org/CORBA/UNKNOWN:1.0".toList.map Char.toUInt8

def marshalId : List UInt8 := "IDL:omg.org/CORBA/MARSHAL:1.0".toList.map Char.toUInt8

def commFailureId : List UInt8 := "IDL:omg.org/CORBA/COMM_FAILURE:1.0".toList.map Char.toUInt8

/-- `CORBA_COMPLETED_YES`, `CORBA_COMPLETED_NO` and `CORBA_COMPLETED_MAYBE` -/
def completedYes : Nat := 0

def completedNo : Nat := 1

def completedMaybe : Nat := 2

/-- `reply_status`, and `ev->_major` -/
def noExceptionStatus : Nat := 0

def userStatus : Nat := 1

def systemStatus : Nat := 2

def forwardStatus : Nat := 3

/-- `ORBit_I_ARG_IN` or `ORBit_I_ARG_INOUT` is set. -/
def Argument.goesIn (a : Argument) : Bool := a.direction ≠ .argOut

/-- `ORBit_I_ARG_OUT` or `ORBit_I_ARG_INOUT` is set. -/
def Argument.comesOut (a : Argument) : Bool := a.direction ≠ .argIn

/-- The branches `BASE_TYPES` and `OBJ_STRING_TYPES` of the switches. -/
def plain : TypeCode → Bool
  | .basic _ | .string | .wstring => true
  | _ => false

/-- `STRUCT_UNION_TYPES` -/
def structOrUnion : TypeCode → Bool
  | .struct _ | .except _ | .union .. => true
  | _ => false

/-- An argument that `ORBit_small_invoke_adaptor` demarshals with `do_demarshal_value`. -/
def Argument.enteredInPlace (a : Argument) : Bool :=
  match a.tc.skipAlias with
  | .array .. => a.fixedSize
  | tc => plain tc || structOrUnion tc && a.fixedSize

/-- An argument that `orbit_small_demarshal` demarshals with `do_demarshal_value`. -/
def Argument.leftInPlace (a : Argument) : Bool :=
  plain a.tc.skipAlias || a.fixedSize || a.direction = .argInout

/-- A result that is demarshalled with `do_demarshal_value`. -/
def Method.retInPlace (m : Method) (tc : TypeCode) : Bool :=
  plain tc.skipAlias || structOrUnion tc.skipAlias && m.fixedSize

/-- The loops that marshal the arguments for which `wanted` is set. -/
@[grind =] def marshalArgs (host : Endian) (wanted : Argument → Bool) :
    List Argument → List Value → Option (List SendOp)
  | [], [] => some []
  | [], _ :: _ => none
  | a :: as, vs =>
      if wanted a then
        match vs with
        | [] => none
        | v :: vs => do
            let ops ← marshalValue host a.tc.skipAlias v
            let ops' ← marshalArgs host wanted as vs
            some (ops ++ ops')
      else marshalArgs host wanted as vs

/-- The loops that demarshal them. -/
@[grind =] def demarshalArgs (wanted inPlace : Argument → Bool) :
    List Argument → RecvCursor → Except Failure (List Value × RecvCursor)
  | [], c => .ok ([], c)
  | a :: as, c =>
      if wanted a then
        match demarshalValue a.tc.skipAlias c with
        | .error .undefined => .error .undefined
        | .error .fail => .error (if inPlace a then .refused else .null)
        | .ok (v, c) =>
            match demarshalArgs wanted inPlace as c with
            | .error e => .error e
            | .ok (vs, c) => .ok (v :: vs, c)
      else demarshalArgs wanted inPlace as c

/-- A message with what `ops` append behind its header. -/
def message (host : Endian) (version : Version) (m : Outgoing) (ops : List SendOp) : List UInt8 :=
  m.wire host version
    ((PlainBuffer.run host ⟨12, []⟩ (m.ops host version ++ ops)).body.drop
      (m.headerBody host version).length)

/-- The buffer that holds a message whose bytes have all arrived. -/
def arrived (host : Endian) (wire : List UInt8) : Option RecvBuffer :=
  match parseHeader host (wire.take 12) with
  | none => none
  | some header =>
      some { RecvBuffer.useBuf 0 with header := header, body := wire.drop 12, cur := 12 }

/-! ### The server -/

section
variable (host : Endian)

/-- `ORBit_send_system_exception` -/
def sendSystemException (id : List UInt8) (minor completed : Nat) : List SendOp :=
  [.appendString id, .appendAligned (host.split 4 minor), .appendAligned (host.split 4 completed)]

/-- `ORBit_marshal_arg` of the result -/
def marshalRet (m : Method) (ret : Option Value) : Option (List SendOp) :=
  match m.ret, ret with
  | none, _ => some []
  | some _, none => none
  | some tc, some v => marshalValue host tc v

/-- From `handle_possible_exception` on: the status the reply is started with and what is
marshalled into it. An undeclared user exception starts a second reply. -/
def replyTo (m : Method) : Outcome → Option (Nat × List SendOp)
  | .user id value =>
      -- ORBit_small_send_user_exception
      match m.exceptions.find? (fun e => e.repoId == id) with
      | some e => (marshalValue host e.tc value).map fun ops => (userStatus, .appendString id :: ops)
      | none => some (systemStatus, sendSystemException host unknownId 0 completedMaybe)
  | .system id minor completed => some (systemStatus, sendSystemException host id minor completed)
  | .returned ret outs => do
      let ops ← marshalRet host m ret
      let ops' ← marshalArgs host Argument.comesOut m.arguments outs
      some (noExceptionStatus, ops ++ ops')

/-- What has become of a request: the arguments the servant was called with, and the reply. -/
structure Served where
  called : Option (List Value)
  reply : Option (List UInt8)

/-- `ORBit_small_invoke_adaptor`. When an argument is refused there is a reply even to a oneway
request. `none` is where the run is not followed. -/
def smallInvokeAdaptor (m : Method) (servant : List Value → Outcome) (buf : RecvBuffer) :
    Option Served :=
  let send := fun (result : Outcome) => (replyTo host m result).map fun (status, ops) =>
    message host buf.header.version (.reply buf.requestId status) ops
  match demarshalArgs Argument.goesIn Argument.enteredInPlace m.arguments (buf.cursor host) with
  | .ok (args, _) =>
      if m.oneway then some ⟨some args, none⟩
      else (send (servant args)).map fun reply => ⟨some args, some reply⟩
  | .error .refused =>
      (send (.system marshalId 0 completedNo)).map fun reply => ⟨none, some reply⟩
  | .error _ => none

/-- What there is behind an object key and an operation name. -/
abbrev Objects := List UInt8 → List UInt8 → Option (Method × (List Value → Outcome))

/-- A request arrives and goes to the method it names. -/
def serve (objects : Objects) (wire : List UInt8) : Option Served := do
  let buf ← arrived host wire
  let buf ← (buf.demarshal host).toOption
  let key ← buf.objkey
  let operation ← buf.opname
  let (m, servant) ← objects key operation
  smallInvokeAdaptor host m servant buf

end

/-! ### The client -/

/-- `strcmp (repo_id, my_repoid)`, which reads no further than the first difference. -/
@[grind =] def sameString : List UInt8 → List UInt8 → Except Stop Bool
  | _, [] => .error .undefined
  | [], y :: _ => .ok (y == 0)
  | x :: xs, y :: ys => if x = y then sameString xs ys else .ok false

/-- The string at an offset, compared with a repository id. -/
def sameAt (repoId : List UInt8) (p : Nat) : Dec Bool := fun c =>
  match sameString repoId (c.data.drop p) with
  | .error stop => .error stop
  | .ok same => .ok (same, c)

/-- The loop over the declared exceptions. -/
@[grind =] def findException (p : Nat) : List ExceptionType → Dec (Option ExceptionType)
  | [] => pure none
  | e :: es => do
      let same ← sameAt e.repoId p
      if same then return some e else findException p es

/-- `my_repoid`, as an offset into the message; `none` is NULL. Nothing is checked. -/
def readRepoId : Dec (Option Nat) := do
  let len ← Dec.alignedWord 4
  if len = 0 then return none
  else
    let p ← Dec.tell
    Dec.advance len
    return some p

/-- `CORBA_string_dup` of the string at an offset -/
def stringAt (p : Nat) : Dec (List UInt8) := fun c =>
  match Dec.cstring { c with cur := p } with
  | .error stop => .error stop
  | .ok (s, _) => .ok (s, c)

def readSystem (id : Option Nat) : Dec Received := do
  let minor ← Dec.alignedWord 4
  let completed ← Dec.alignedWord 4
  match id with
  | none => return .system none minor completed
  | some p =>
      let s ← stringAt p
      return .system (some s) minor completed

/-- The system exception of `errout`, and of an exception that is not known. -/
def marshalMaybe : Received := .system (some marshalId) 0 completedMaybe

/-- `ORBit_demarshal_arg` of an exception; NULL is no failure here. -/
def exceptionValue (tc : TypeCode) : Dec (Option Value) := fun c =>
  match demarshalValue tc c with
  | .error .undefined => .error .undefined
  | .error .fail => .ok (none, c)
  | .ok (v, c) => .ok (some v, c)

/-- Without an id the first declared exception is taken. -/
def readUser (m : Method) (id : Option Nat) : Dec Received := do
  let found ←
    match id with
    | none => pure m.exceptions.head?
    | some p => findException p m.exceptions
  match found with
  | none => return marshalMaybe
  | some e =>
      let value ← exceptionValue e.tc
      return .user e.repoId value

/-- `ORBit_handle_exception_array` -/
def handleExceptionArray (m : Method) (status : Nat) (c : RecvCursor) : Except Failure Received :=
  let read : Dec Received := do
    let id ← readRepoId
    if status = systemStatus then readSystem id
    else if status = userStatus then readUser m id
    else Dec.stop .fail
  match read c with
  | .ok (r, _) => .ok r
  | .error .fail => .ok marshalMaybe
  | .error .undefined => .error .undefined

/-- The result; what ends the call early is on the left. -/
def demarshalRet (m : Method) (c : RecvCursor) :
    Except (Except Failure Received) (Option Value × RecvCursor) :=
  match m.ret with
  | none => .ok (none, c)
  | some tc =>
      if m.retInPlace tc then
        match demarshalValue tc.skipAlias c with
        | .error .undefined => .error (.error .undefined)
        | .error .fail => .error (.ok marshalMaybe)
        | .ok (v, c) => .ok (some v, c)
      else
        -- MARSHAL_SYS_EXCEPTION_COMPLETE
        let lost : Received := .system (some commFailureId) 0 completedYes
        match demarshalValue tc.skipAlias c with
        | .error .undefined => .error (.error .undefined)
        | .error .fail => .error (.ok lost)
        | .ok (v, c) => if tc.sizeless then .error (.ok lost) else .ok (some v, c)

/-- `orbit_small_demarshal`, and what the stub makes of its verdict. -/
def smallDemarshal (host : Endian) (m : Method) (buf : RecvBuffer) : Except Failure Received :=
  if buf.decoded.status = noExceptionStatus then
    match demarshalRet m (buf.cursor host) with
    | .error r => r
    | .ok (ret, c) =>
        match demarshalArgs Argument.comesOut Argument.leftInPlace m.arguments c with
        | .ok (outs, _) => .ok (.returned ret outs)
        | .error .refused => .ok marshalMaybe
        | .error e => .error e
  else if buf.decoded.status = forwardStatus then .ok .forward
  else handleExceptionArray m buf.decoded.status (buf.cursor host)

/-- The reply arrives. -/
def receive (host : Endian) (m : Method) (wire : List UInt8) : Option Received := do
  let buf ← arrived host wire
  let buf ← (buf.demarshal host).toOption
  (smallDemarshal host m buf).toOption

/-- `orbit_small_marshal`, without the message header. -/
def requestOps (host : Endian) (m : Method) (args : List Value) : Option (List SendOp) :=
  marshalArgs host Argument.goesIn m.arguments args

/-- The request that `orbit_small_marshal` starts. -/
def requestOf (m : Method) (requestId : Nat) (key : List UInt8) : Outgoing :=
  .request requestId (if m.oneway then 0 else 1) key m.name

/-- A whole call: what the servant was called with, and what the caller received, which is
nothing for a oneway method. -/
def remoteCall (client server : Endian) (version : Version) (requestId : Nat) (key : List UInt8)
    (objects : Objects) (m : Method) (args : List Value) :
    Option (Option (List Value) × Option Received) := do
  let ops ← requestOps client m args
  let served ← serve server objects (message client version (requestOf m requestId key) ops)
  if m.oneway then return (served.called, none)
  else
    let reply ← served.reply
    let received ← receive client m reply
    return (served.called, some received)

end RemoteCall
end ORBit2
