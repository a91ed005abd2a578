import ORBit2.ObjectKey
import ORBit2.PoaRequest

/-! The state behind the POAs of an ORB: policies, managers, objects with their servants, and
the small functions that change it. -/

set_option autoImplicit false

namespace ORBit2.PortableServer

structure Policies where
  singleThread : Bool
  uniqueId : Bool
  systemId : Bool
  implicitActivation : Bool
  retain : Bool
  processing : RequestProcessing
  deriving DecidableEq, Repr

/-- What the end of `ORBit_POA_set_policies` accepts. -/
def Policies.Accepted (p : Policies) : Prop :=
  ¬ (p.retain = false ∧ p.processing = .activeObjectMapOnly) ∧
  ¬ (p.processing = .defaultServant ∧ p.uniqueId = true) ∧
  ¬ (p.implicitActivation = true ∧ (p.systemId = false ∨ p.retain = false))

instance (p : Policies) : Decidable p.Accepted := by unfold Policies.Accepted; infer_instance

/-- How a run ends before its time. -/
inductive Stop where
  /-- a `g_assert` of the POA fails -/
  | assertion
  /-- a servant is used that is NULL -/
  | nullServant
  /-- the servant manager is NULL -/
  | nullManager
  /-- an object is used that is NULL -/
  | nullObject
  /-- memory is used, or a reference given back, that has been given back before -/
  | freed
  /-- a table changes while it is walked -/
  | iterated
  /-- `g_error` -/
  | error
  /-- not an end: a lock has to be waited for -/
  | blocked
  deriving DecidableEq, Repr

/-- The class of a servant. -/
structure ClassInfo where
  vepvmap : List Nat
  /-- the operations that `impl_finder`, or the skeletons of CORBA::Object, find -/
  implements : Nat → Bool
  /-- the operations with `ORBit_I_METHOD_1_WAY` -/
  oneway : Nat → Bool
  /-- `vepv[0]->finalize` is not NULL -/
  finalizes : Bool

/-- What is fixed for a run. -/
structure World where
  /-- `link_is_thread_safe`: there are locks -/
  threadSafe : Bool
  /-- `giop_thread_io ()` -/
  threadIo : Bool
  endian : Words.Endian
  policies : Nat → Policies
  manager : Nat → Nat
  parent : Nat → Option Nat
  classInfo : Nat → ClassInfo

/-- The flags of a POA. -/
structure PoaLife where
  deactivateDo : Bool
  doEtherealize : Bool
  deactivating : Bool
  deactivated : Bool
  destroyDo : Bool
  destroying : Bool
  destroyed : Bool
  deriving DecidableEq, Repr

/-- The flags of an object. -/
structure ObjectLife where
  needPostInvoke : Bool
  doEtherealize : Bool
  isCleanup : Bool
  deactivateDo : Bool
  destroyed : Bool
  deriving DecidableEq, Repr

structure POAObject where
  poa : Nat
  /-- NULL once the object is destroyed -/
  objectId : Option Octets
  servant : Option Nat
  vepvmapCache : Option (List Nat)
  life : ObjectLife
  useCnt : Nat
  refs : Nat
  /-- `base.objref`, with the references there are to it -/
  objref : Option Nat
  deriving DecidableEq, Repr

structure POA where
  created : Bool
  life : PoaLife
  nextSysid : Nat
  defaultServant : Option Nat
  /-- a servant manager has been set -/
  servantManager : Bool
  threadHint : ThreadHint
  /-- `oid_to_obj_map`: the object whose id is the key, and the object that is found there -/
  map : List (Nat × Nat)
  /-- the objects of the requests in `held_requests`, the last one first -/
  held : List Nat
  locked : Bool

structure Manager where
  state : POAManagerState
  poaCollection : List Nat

/-- A request at an object, in this process or from outside. -/
structure Call where
  /-- the POA of the object, which is locked and unlocked for the request -/
  poa : Nat
  object : Nat
  opname : Nat
  remote : Bool
  /-- to tell requests apart -/
  number : Nat
  deriving DecidableEq, Repr

/-- Who called `ORBit_POA_deactivate`. -/
inductive Deactivator where
  | manager (m : Nat) (etherealize : Bool)
  | destroy
  deriving DecidableEq, Repr

/-- What a thread has still to do. Where a function outside runs, the task waits for it. -/
inductive Task where
  | deactivateObject (p o : Nat) (etherealize cleanup : Bool)
  /-- `etherealize` runs -/
  | etherealize (p o servant : Nat)
  /-- `finalize` runs; `etherealize` may have raised an exception before -/
  | finalize (p o servant : Nat) (raised : Bool)
  | release (o : Nat)
  | unlock (p : Nat)
  | request (c : Call)
  /-- `incarnate` runs -/
  | incarnate (c : Call)
  /-- `preinvoke` runs -/
  | preinvoke (c : Call)
  /-- the method of the servant runs -/
  | method (c : Call) (cookie : Nat)
  /-- `postinvoke` runs -/
  | postinvoke (c : Call) (cookie servant : Nat)
  /-- the end of `ORBit_POAObject_handle_request` -/
  | endUse (c : Call)
  | deactivate (p : Nat) (etherealize : Bool) (caller : Deactivator)
  | traverse (p : Nat) (rest : List Nat) (inUse etherealize : Bool) (caller : Deactivator)
  | destroy (p : Nat) (etherealize : Bool)
  | destroyChildren (p : Nat) (etherealize : Bool) (i : Nat)
  /-- the assertion of `PortableServer_POA_destroy` -/
  | destroyEnd (p : Nat) (wait : Bool)
  deriving DecidableEq, Repr

/-- What a servant locator sees of a request. -/
inductive Visit where
  | preinvoke (number : Nat) (oid : Octets) (opname cookie servant : Nat)
  | dispatch (number servant : Nat)
  | postinvoke (number : Nat) (oid : Octets) (opname cookie servant : Nat)
  deriving DecidableEq, Repr

structure State where
  poas : Nat → POA
  managers : Nat → Manager
  objects : Nat → Option POAObject
  /-- the objects on the list `servant->_private` -/
  privates : Nat → List Nat
  nextObject : Nat
  /-- `orb->current_invocations` -/
  invocations : List Nat
  /-- the POAs in the order of their ids -/
  adaptors : List Nat
  /-- requests handed to another thread -/
  queue : List Call
  nextCall : Nat
  /-- what the threads have still to do, for each thread what comes next first -/
  tasks : List (Nat × Task)
  visits : List Visit
  stopped : Option Stop

/-- The result of a function of the interface. -/
inductive Result where
  | done
  | wrongPolicy
  | servantAlreadyActive
  | objectAlreadyActive
  | servantNotActive
  | objectNotActive
  | wrongAdapter
  | adapterInactive
  | badInvOrder
  | noContext
  | objectId (oid : Octets)
  | reference (o : Nat)
  | servant (s : Option Nat)
  | poa (p : Nat)
  deriving DecidableEq, Repr

section
variable (w : World)

def State.setPoa (s : State) (p : Nat) (f : POA → POA) : State :=
  { s with poas := Function.update s.poas p (f (s.poas p)) }

def State.setObject (s : State) (o : Nat) (x : POAObject) : State :=
  { s with objects := Function.update s.objects o (some x) }

/-- An object that is still there. -/
def State.object (s : State) (o : Nat) : Except Stop POAObject :=
  match s.objects o with
  | some x => .ok x
  | none => .error .freed

/-- `POA_LOCK` -/
def State.lock (s : State) (p : Nat) : Except Stop State :=
  if w.threadSafe = false then .ok s
  else if (s.poas p).locked then .error .blocked
  else .ok (s.setPoa p fun x => { x with locked := true })

/-- `POA_UNLOCK` -/
def State.unlock (s : State) (p : Nat) : State :=
  if w.threadSafe = false then s else s.setPoa p fun x => { x with locked := false }

/-- The id under which an entry of `oid_to_obj_map` is found. -/
def State.key (s : State) (entry : Nat × Nat) : Option Octets :=
  (s.objects entry.1).bind (·.objectId)

/-- `ORBit_POA_object_id_lookup_T`, without the new reference. A key that has been given back
must not be looked at. -/
def State.objectIdLookup (s : State) (p : Nat) (oid : Octets) : Except Stop (Option Nat) :=
  if ∃ e ∈ (s.poas p).map, s.key e = none then .error .freed
  else .ok (((s.poas p).map.find? fun e => s.key e = some oid).map (·.2))

/-- `ORBit_RootObject_duplicate` of an object -/
def State.duplicate (s : State) (o : Nat) : Except Stop State := do
  let x ← s.object o
  .ok (s.setObject o { x with refs := x.refs + 1 })

/-- `ORBit_POAObject_release_cb` -/
def State.releaseCb (s : State) (o : Nat) (x : POAObject) : Except Stop State :=
  if x.servant ≠ none then .error .assertion
  else if (s.poas x.poa).life.deactivating then
    .ok (s.setObject o { x with refs := 0, objectId := none, life := ⟨false, false, false, false, true⟩ })
  else
    let s := s.setPoa x.poa fun p => { p with map := p.map.filter fun e => s.key e ≠ x.objectId }
    .ok { s with objects := Function.update s.objects o none }

/-- `ORBit_RootObject_release` of an object -/
def State.release (s : State) (o : Nat) : Except Stop State := do
  let x ← s.object o
  if x.refs = 0 then .error .freed
  else if x.refs = 1 then s.releaseCb o x
  else .ok (s.setObject o { x with refs := x.refs - 1 })

/-- `ORBit_POA_new_system_objid_T` -/
def State.newSystemObjid (s : State) (p : Nat) (random : Octets) : Octets :=
  w.endian.split 4 ((s.poas p).nextSysid + 1) ++ random

/-- `g_hash_table_insert`: an entry with that key keeps it. -/
def State.insertEntry (s : State) (p : Nat) (oid : Octets) (o : Nat) : List (Nat × Nat) :=
  let map := (s.poas p).map
  if ∃ e ∈ map, s.key e = some oid then
    map.map fun e => if s.key e = some oid then (e.1, o) else e
  else (o, o) :: map

def POAObject.new (p : Nat) (oid : Octets) : POAObject where
  poa := p
  objectId := some oid
  servant := none
  vepvmapCache := none
  life := ⟨false, false, false, false, false⟩
  useCnt := 0
  refs := 0
  objref := none

/-- The id of a new object: a system id has its length asserted. -/
def State.objidFor (s : State) (p : Nat) (objid : Option Octets) (random : Octets) :
    Except Stop Octets :=
  match objid with
  | some oid =>
      if (w.policies p).systemId ∧ oid.length ≠ 4 + objectIdLen then .error .assertion
      else .ok oid
  | none =>
      if (w.policies p).systemId then .ok (s.newSystemObjid w p random) else .error .freed

/-- `ORBit_POA_create_object_T`. The object has no reference yet. -/
def State.createObject (s : State) (p : Nat) (objid : Option Octets) (random : Octets) :
    Except Stop (State × Nat) := do
  let oid ← s.objidFor w p objid random
  if (s.poas p).life.deactivating ∧ (w.policies p).retain then .error .iterated
  else
    let o := s.nextObject
    let map := s.insertEntry p oid o
    let nextSysid := (s.poas p).nextSysid + (if objid = none then 1 else 0)
    .ok ({ (s.setPoa p fun x => { x with map, nextSysid }).setObject o (.new p oid) with
      nextObject := o + 1 }, o)

/-- `pobj` is put on the list of the servant, which gets a reference to it. -/
def State.link (s : State) (o : Nat) (x : POAObject) (servant : Nat) : State :=
  { s.setObject o { x with servant := some servant, refs := x.refs + 1 } with
    privates := Function.update s.privates servant (o :: s.privates servant) }

/-- `pobj` is taken from the list again. -/
def State.unlink (s : State) (o : Nat) (x : POAObject) (servant : Nat) : Except Stop State :=
  if o ∈ s.privates servant then
    .ok { s.setObject o { x with servant := none } with
      privates := Function.update s.privates servant ((s.privates servant).erase o) }
  else .error .assertion

/-- `ORBit_POA_activate_object_T` -/
def State.activateObject (s : State) (p o : Nat) (servant : Option Nat) : Except Stop State := do
  let x ← s.object o
  if x.servant ≠ none ∨ (s.poas p).life.deactivateDo ∨ x.useCnt ≠ 0 then .error .assertion
  else match servant with
    | none => .error .nullServant
    | some sv => .ok (s.link o { x with vepvmapCache := some (w.classInfo sv).vepvmap } sv)

/-- `ORBit_POA_obj_to_ref` -/
def State.objToRef (s : State) (o : Nat) (intf : Bool) : Except Stop State := do
  let x ← s.object o
  if x.objref ≠ none ∨ (intf = false ∧ x.servant = none) then .error .assertion
  else .ok (s.setObject o { x with objref := some 1, refs := x.refs + 1 })

/-- The application gets one more reference to a CORBA object. -/
def State.duplicateReference (s : State) (o : Nat) : Except Stop State := do
  let x ← s.object o
  match x.objref with
  | none => .error .freed
  | some n => .ok (s.setObject o { x with objref := some (n+1) })

/-- The application releases a reference; the last one takes the CORBA object with it. -/
def State.releaseReference (s : State) (o : Nat) : Except Stop State := do
  let x ← s.object o
  match x.objref with
  | none => .error .freed
  | some n =>
      if n = 1 then (s.setObject o { x with objref := none }).release o
      else .ok (s.setObject o { x with objref := some (n-1) })

end

end ORBit2.PortableServer
