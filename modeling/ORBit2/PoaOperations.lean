import ORBit2.PoaTasks

/-! The operations of POA and POAManager, and the runs in which threads call them, requests come
in and the functions of the application return. -/

set_option autoImplicit false

namespace ORBit2.PortableServer

section
variable (w : World)

/-- `PortableServer_POA_activate_object`. Like its neighbours, it leaves through the checks of the
policies with the lock in its hands. -/
def State.poaActivateObject (s : State) (p servant : Nat) (random : Octets) :
    Except Stop (State × Result) := do
  let s ← s.lock w p
  if (w.policies p).retain = false ∨ (w.policies p).systemId = false then .ok (s, .wrongPolicy)
  else if (w.policies p).uniqueId ∧ s.privates servant ≠ [] then .ok (s, .servantAlreadyActive)
  else
    let (s, o) ← s.createObject w p none random
    let s ← s.activateObject w p o servant
    .ok (s.unlock w p, match s.key (o, o) with
      | some oid => .objectId oid
      | none => .done)

/-- `PortableServer_POA_activate_object_with_id` -/
def State.poaActivateObjectWithId (s : State) (p : Nat) (oid : Octets) (servant : Nat) :
    Except Stop (State × Result) := do
  let s ← s.lock w p
  if (w.policies p).retain = false then .ok (s, .wrongPolicy)
  else match ← s.objectIdLookup p oid with
    | none =>
        if (w.policies p).uniqueId ∧ s.privates servant ≠ [] then
          .ok (s.unlock w p, .servantAlreadyActive)
        else
          let (s, o) ← s.createObject w p (some oid) []
          .ok ((← s.activateObject w p o servant).unlock w p, .done)
    | some o =>
        let s ← s.duplicate o
        let x ← s.object o
        if x.servant ≠ none then .ok ((← s.release o).unlock w p, .objectAlreadyActive)
        else if (w.policies p).uniqueId ∧ s.privates servant ≠ [] then
          .ok ((← s.release o).unlock w p, .servantAlreadyActive)
        else
          let s ← s.activateObject w p o servant
          .ok ((← s.release o).unlock w p, .done)

/-- `PortableServer_POA_deactivate_object` -/
def State.poaDeactivateObject (s : State) (p : Nat) (oid : Octets) :
    Except Stop (State × List Task × Result) := do
  let s ← s.lock w p
  if (w.policies p).retain = false then .ok (s, [], .wrongPolicy)
  else match ← s.objectIdLookup p oid with
    | none => .ok (s.unlock w p, [], .done)
    | some o => .ok (← s.duplicate o, [.deactivateObject p o true false, .unlock p, .release o], .done)

/-- `PortableServer_POA_create_reference` -/
def State.poaCreateReference (s : State) (p : Nat) (intf : Bool) (random : Octets) :
    Except Stop (State × Result) := do
  let s ← s.lock w p
  if (w.policies p).systemId = false then .ok (s, .wrongPolicy)
  else
    let (s, o) ← s.createObject w p none random
    .ok ((← s.objToRef o intf).unlock w p, .reference o)

/-- `PortableServer_POA_create_reference_with_id`: for an object that is created, the reference
is made to NULL. -/
def State.poaCreateReferenceWithId (s : State) (p : Nat) (oid : Octets) (intf : Bool) :
    Except Stop (State × Result) := do
  let s ← s.lock w p
  match ← s.objectIdLookup p oid with
  | none => do
      let _ ← s.createObject w p (some oid) []
      .error .assertion
  | some o =>
      let s ← (← s.duplicate o).objToRef o intf
      .ok ((← s.release o).unlock w p, .reference o)

/-- `ORBit_POA_invocation_stack_lookup_objid`: the list is searched to its end. -/
def State.invocationStackLookupObjid (s : State) (servant : Nat) : Except Stop (Option Octets) := do
  if ∃ o ∈ s.invocations, s.objects o = none then .error .freed
  else
    .ok ((s.invocations.filterMap s.objects).foldl
      (fun found x => if x.servant = some servant then x.objectId else found) none)

/-- `ORBit_POA_invocation_stack_lookup_objref` -/
def State.invocationStackLookupObjref (s : State) (servant : Nat) :
    Except Stop (State × Option Nat) :=
  s.invocations.foldlM (fun (found : State × Option Nat) o => do
    let x ← found.1.object o
    if x.servant = some servant then .ok (← found.1.objToRef o false, some o) else .ok found) (s, none)

/-- `ORBit_POA_invocation_stack_peek` -/
def State.invocationStackPeek (s : State) : Option Nat := s.invocations.head?

/-- `PortableServer_Current_get_POA`: the object is not checked. -/
def State.currentGetPOA (s : State) : Except Stop Result := do
  match s.invocationStackPeek with
  | none => .error .nullObject
  | some o => .ok (.poa (← s.object o).poa)

/-- `PortableServer_Current_get_object_id` -/
def State.currentGetObjectId (s : State) : Except Stop Result := do
  match s.invocationStackPeek with
  | none => .ok .noContext
  | some o =>
      match (← s.object o).objectId with
      | some oid => .ok (.objectId oid)
      | none => .error .freed

/-- An implicit activation. -/
def State.activateImplicitly (s : State) (p servant : Nat) (random : Octets) :
    Except Stop (State × Nat) := do
  let (s, o) ← s.createObject w p none random
  .ok (← s.activateObject w p o servant, o)

/-- The first object on the list of the servant, if UNIQUE_ID makes it the one in question. -/
def State.uniqueObject (s : State) (p servant : Nat) : Except Stop (Option Nat) :=
  match (s.privates servant).head? with
  | some o =>
      if (w.policies p).retain ∧ (w.policies p).uniqueId then do
        .ok (if (← s.object o).servant = some servant then some o else none)
      else .ok none
  | none => .ok none

/-- The three cases of `PortableServer_POA_servant_to_id` -/
def State.servantId (s : State) (p servant : Nat) (random : Octets) :
    Except Stop (State × Option Octets) := do
  let pol := w.policies p
  match ← s.uniqueObject w p servant with
  | some o => .ok (s, s.key (o, o))
  | none =>
      if pol.retain ∧ pol.implicitActivation ∧ (pol.uniqueId = false ∨ s.privates servant = []) then
        let (s, o) ← s.activateImplicitly w p servant random
        .ok (s, s.key (o, o))
      else .ok (s, ← s.invocationStackLookupObjid servant)

/-- `PortableServer_POA_servant_to_id`; the servant is looked at before it is checked. -/
def State.poaServantToId (s : State) (p : Nat) (servant : Option Nat) (random : Octets) :
    Except Stop (State × Result) := do
  let pol := w.policies p
  match servant with
  | none => .error .nullServant
  | some servant =>
      let s ← s.lock w p
      if ¬ (pol.processing = .defaultServant ∨
          (pol.retain ∧ (pol.uniqueId ∨ pol.implicitActivation))) then .ok (s, .wrongPolicy)
      else
        let (s, oid) ← s.servantId w p servant random
        .ok (s.unlock w p, oid.elim .servantNotActive .objectId)

/-- The reference to an object: there is one, or it is made. -/
def State.referenceFor (s : State) (o : Nat) : Except Stop State := do
  if (← s.object o).objref.isSome then s.duplicateReference o else s.objToRef o false

/-- The three cases of `PortableServer_POA_servant_to_reference` -/
def State.servantReference (s : State) (p servant : Nat) (random : Octets) :
    Except Stop (State × Option Nat) := do
  let pol := w.policies p
  match (if pol.uniqueId then (s.privates servant).head? else none) with
  | some o => .ok (← s.referenceFor o, some o)
  | none =>
      if pol.implicitActivation then
        let (s, o) ← s.activateImplicitly w p servant random
        .ok (← s.objToRef o false, some o)
      else s.invocationStackLookupObjref servant

/-- `PortableServer_POA_servant_to_reference` -/
def State.poaServantToReference (s : State) (p : Nat) (servant : Option Nat) (random : Octets) :
    Except Stop (State × Result) := do
  let pol := w.policies p
  match servant with
  | none => .error .nullServant
  | some servant =>
      let s ← s.lock w p
      if ¬ (pol.retain ∧ (pol.uniqueId ∨ pol.implicitActivation)) then .ok (s, .wrongPolicy)
      else
        let (s, o) ← s.servantReference w p servant random
        .ok (s.unlock w p, o.elim .servantNotActive .reference)

/-- `PortableServer_POA_reference_to_servant`, for a reference that is to an object of this
process or not. -/
def State.poaReferenceToServant (s : State) (p : Nat) (reference : Option Nat) :
    Except Stop Result := do
  let pol := w.policies p
  if pol.processing ≠ .defaultServant ∧ pol.retain = false then .ok .wrongPolicy
  else if pol.retain then
    match reference with
    | none => .ok .wrongAdapter
    | some o =>
        match (← s.object o).servant with
        | some servant => .ok (.servant servant)
        | none => .ok .objectNotActive
  else match (s.poas p).defaultServant with
    | some servant => .ok (.servant servant)
    | none => .ok .objectNotActive

/-- `PortableServer_POA_reference_to_id` -/
def State.poaReferenceToId (s : State) (reference : Option Nat) : Except Stop Result := do
  match reference with
  | none => .ok .wrongAdapter
  | some o =>
      match (← s.object o).objectId with
      | some oid => .ok (.objectId oid)
      | none => .error .freed

/-- The servant of the object with this id, looked up with a reference. -/
def State.servantWithId (s : State) (p : Nat) (oid : Octets) : Except Stop (State × Option Nat) := do
  match ← s.objectIdLookup p oid with
  | some o =>
      let s ← s.duplicate o
      let x ← s.object o
      .ok (← s.release o, x.servant)
  | none => .ok (s, none)

/-- `PortableServer_POA_id_to_servant`: what is found is not returned. -/
def State.poaIdToServant (s : State) (p : Nat) (oid : Octets) : Except Stop (State × Result) := do
  let pol := w.policies p
  let s ← s.lock w p
  if pol.processing ≠ .defaultServant ∧ pol.retain = false then .ok (s, .wrongPolicy)
  else if pol.retain then
    let (s, servant) ← s.servantWithId p oid
    .ok (s.unlock w p, if servant = none then .objectNotActive else .servant none)
  else .ok (s.unlock w p,
    if (s.poas p).defaultServant = none then .objectNotActive else .servant none)

/-- `PortableServer_POA_id_to_reference` -/
def State.poaIdToReference (s : State) (p : Nat) (oid : Octets) : Except Stop (State × Result) := do
  let s ← s.lock w p
  if (w.policies p).retain = false then .ok (s, .wrongPolicy)
  else match ← s.objectIdLookup p oid with
    | none => .ok (s.unlock w p, .objectNotActive)
    | some o =>
        let s ← s.duplicate o
        if (← s.object o).servant = none then .ok ((← s.release o).unlock w p, .objectNotActive)
        else
          let s ← s.referenceFor o
          .ok ((← s.release o).unlock w p, .reference o)

/-- `PortableServer_POA_destroy` -/
def State.poaDestroy (s : State) (p : Nat) (etherealize wait : Bool) :
    Except Stop (State × List Task × Result) := do
  let s ← s.lock w p
  let below := s.below w s.adaptors.length p
  if (s.poas p).life.destroyed then .ok (s.unlock w p, [], .done)
  else if wait ∧ w.threadSafe ∧ ∃ q ∈ below, (s.poas q).locked then .error .blocked
  else if wait ∧ ∃ q ∈ p :: below, s.InUse q then .ok (s.unlock w p, [], .badInvOrder)
  else .ok (s, [.destroy p etherealize, .destroyEnd p wait, .unlock p], .done)

/-- `PortableServer_POA_create_POA`, with `ORBit_POA_new` -/
def State.poaCreate (s : State) (p : Nat) : State :=
  if (s.poas p).created ∨ ¬ (w.policies p).Accepted then s
  else
    let m := w.manager p
    { s.setPoa p fun x => { x with created := true } with
      adaptors := s.adaptors ++ [p]
      managers := Function.update s.managers m
        { s.managers m with poaCollection := (s.managers m).poaCollection ++ [p] } }

def State.setManagerState (s : State) (m : Nat) (state : POAManagerState) : State :=
  { s with managers := Function.update s.managers m { s.managers m with state } }

/-- `PortableServer_POAManager_activate` -/
def State.managerActivate (s : State) (m : Nat) : Except Stop (State × Result) := do
  if (s.managers m).state = .inactive then .ok (s, .adapterInactive)
  else
    let s := s.setManagerState m .active
    .ok (← (s.managers m).poaCollection.foldlM State.handleHeldRequests s, .done)

/-- `PortableServer_POAManager_hold_requests` and `PortableServer_POAManager_discard_requests` -/
def State.managerSuspend (s : State) (m : Nat) (state : POAManagerState) : State × Result :=
  if (s.managers m).state = .inactive then (s, .adapterInactive)
  else (s.setManagerState m state, .done)

/-- `PortableServer_POAManager_deactivate` up to the loop over the POAs, none of which is
locked. -/
def State.managerDeactivate (s : State) (m : Nat) (etherealize wait : Bool) :
    Except Stop (State × List Task × Result) := do
  let poas := (s.managers m).poaCollection
  if (s.managers m).state = .inactive then .ok (s, [], .adapterInactive)
  else if wait ∧ w.threadSafe ∧ ∃ p ∈ poas, (s.poas p).locked then .error .blocked
  else if wait ∧ ∃ p ∈ poas, ¬ s.InUse p then .ok (s, [], .badInvOrder)
  else
    .ok (s.setManagerState m .inactive, match poas.head? with
      | none => []
      | some p => [.deactivate p etherealize (.manager m etherealize)], .done)

inductive Operation where
  | createPOA (p : Nat)
  | setThreadHint (p : Nat) (hint : ThreadHint)
  | setServant (p servant : Nat)
  | setServantManager (p : Nat)
  | activateObject (p servant : Nat) (random : Octets)
  | activateObjectWithId (p : Nat) (oid : Octets) (servant : Nat)
  | deactivateObject (p : Nat) (oid : Octets)
  | createReference (p : Nat) (intf : Bool) (random : Octets)
  | createReferenceWithId (p : Nat) (oid : Octets) (intf : Bool)
  | servantToId (p : Nat) (servant : Option Nat) (random : Octets)
  | servantToReference (p : Nat) (servant : Option Nat) (random : Octets)
  | referenceToServant (p : Nat) (reference : Option Nat)
  | referenceToId (p : Nat) (reference : Option Nat)
  | idToServant (p : Nat) (oid : Octets)
  | idToReference (p : Nat) (oid : Octets)
  | currentGetPOA
  | currentGetObjectId
  | destroy (p : Nat) (etherealize wait : Bool)
  | managerActivate (m : Nat)
  | holdRequests (m : Nat)
  | discardRequests (m : Nat)
  | managerDeactivate (m : Nat) (etherealize wait : Bool)
  | duplicateReference (o : Nat)
  | releaseReference (o : Nat)
  /-- a request in this process -/
  | invoke (o opname : Nat)
  /-- a request from outside -/
  | incoming (p : Nat) (oid : Octets) (opname : Nat)
  /-- a request that was handed to this thread -/
  | serve (i : Nat)
  deriving DecidableEq, Repr

/-- The POA an operation is called on. -/
def Operation.poa : Operation → Option Nat
  | .setThreadHint p _ | .setServant p _ | .setServantManager p | .activateObject p _ _
  | .activateObjectWithId p _ _ | .deactivateObject p _ | .createReference p _ _
  | .createReferenceWithId p _ _ | .servantToId p _ _ | .servantToReference p _ _
  | .referenceToServant p _ | .referenceToId p _ | .idToServant p _ | .idToReference p _
  | .destroy p _ _ | .incoming p _ _ => some p
  | _ => none

/-- An operation, and what its thread has still to do for it. -/
def State.perform (s : State) : Operation → Except Stop (State × List Task × Result)
  | .createPOA p => .ok (s.poaCreate w p, [], .poa p)
  | .setThreadHint p threadHint => .ok (s.setPoa p fun x => { x with threadHint }, [], .done)
  | .setServant p servant =>
      .ok (s.setPoa p fun x => { x with defaultServant := some servant }, [], .done)
  | .setServantManager p =>
      if (s.poas p).servantManager then .ok (s, [], .badInvOrder)
      else .ok (s.setPoa p fun x => { x with servantManager := true }, [], .done)
  | .activateObject p servant random => do
      let (s, r) ← s.poaActivateObject w p servant random
      .ok (s, [], r)
  | .activateObjectWithId p oid servant => do
      let (s, r) ← s.poaActivateObjectWithId w p oid servant
      .ok (s, [], r)
  | .deactivateObject p oid => s.poaDeactivateObject w p oid
  | .createReference p intf random => do
      let (s, r) ← s.poaCreateReference w p intf random
      .ok (s, [], r)
  | .createReferenceWithId p oid intf => do
      let (s, r) ← s.poaCreateReferenceWithId w p oid intf
      .ok (s, [], r)
  | .servantToId p servant random => do
      let (s, r) ← s.poaServantToId w p servant random
      .ok (s, [], r)
  | .servantToReference p servant random => do
      let (s, r) ← s.poaServantToReference w p servant random
      .ok (s, [], r)
  | .referenceToServant p reference => do .ok (s, [], ← s.poaReferenceToServant w p reference)
  | .referenceToId _ reference => do .ok (s, [], ← s.poaReferenceToId reference)
  | .idToServant p oid => do
      let (s, r) ← s.poaIdToServant w p oid
      .ok (s, [], r)
  | .idToReference p oid => do
      let (s, r) ← s.poaIdToReference w p oid
      .ok (s, [], r)
  | .currentGetPOA => do .ok (s, [], ← s.currentGetPOA)
  | .currentGetObjectId => do .ok (s, [], ← s.currentGetObjectId)
  | .destroy p etherealize wait => s.poaDestroy w p etherealize wait
  | .managerActivate m => do
      let (s, r) ← s.managerActivate m
      .ok (s, [], r)
  | .holdRequests m => let (s, r) := s.managerSuspend m .holding; .ok (s, [], r)
  | .discardRequests m => let (s, r) := s.managerSuspend m .discarding; .ok (s, [], r)
  | .managerDeactivate m etherealize wait => s.managerDeactivate w m etherealize wait
  | .duplicateReference o => do .ok (← s.duplicateReference o, [], .done)
  | .releaseReference o => do .ok (← s.releaseReference o, [], .done)
  | .invoke o opname => do
      let (s, tasks) ← s.invoke o opname
      .ok (s, tasks, .done)
  | .incoming p oid opname => do
      let (s, tasks) ← s.incoming w p oid opname
      .ok (s, tasks, .done)
  | .serve i =>
      match s.queue[i]? with
      | none => .ok (s, [], .done)
      | some c => .ok ({ s with queue := s.queue.eraseIdx i }, c.tasks, .done)

/-- How a function of the application returns. -/
structure Reply where
  /-- the servant that `incarnate` or `preinvoke` returns, and the cookie -/
  servant : Option Nat
  cookie : Nat
  raised : Bool
  deriving DecidableEq, Repr

/-- The task waits for a function of the application. -/
def Task.waits : Task → Bool
  | .etherealize .. | .finalize .. | .incarnate .. | .preinvoke .. | .method .. | .postinvoke .. =>
      true
  | _ => false

/-- The next piece of a task that does not wait. -/
def State.runTask (s : State) : Task → Except Stop (State × List Task)
  | .deactivateObject p o etherealize cleanup => s.deactivateObject w p o etherealize cleanup
  | .release o => do .ok (← s.release o, [])
  | .unlock p => .ok (s.unlock w p, [])
  | .request c => s.handleRequest w c
  | .endUse c => s.endUse w c
  | .deactivate p etherealize caller => s.deactivate w p etherealize caller
  | .traverse p rest inUse etherealize caller => s.traverse w p rest inUse etherealize caller
  | .destroy p etherealize => .ok (s.destroy w p etherealize)
  | .destroyChildren p etherealize i => s.destroyChildren w p etherealize i
  | .destroyEnd p wait =>
      if wait ∧ (s.poas p).life.destroyed = false then .error .assertion else .ok (s, [])
  | _ => .ok (s, [])

/-- A function of the application returns. -/
def State.resumeTask (s : State) (r : Reply) : Task → Except Stop (State × List Task)
  | .etherealize p o servant => s.callFinalize w p o servant r.raised
  | .finalize p o _ raised => do .ok (← s.finalized w p o (raised || r.raised), [])
  | .incarnate c => s.incarnated w c r.servant r.raised
  | .preinvoke c => s.preinvoked w c r.servant r.cookie r.raised
  | .method c cookie => s.returned w c cookie
  | _ => .ok (s, [])

/-- The next task of a thread, and the others. -/
def nextTask {α : Type} (t : Nat) : List (Nat × α) → Option (α × List (Nat × α))
  | [] => none
  | (u, k) :: rest =>
      if u = t then some (k, rest) else (nextTask t rest).map fun (k', rest') => (k', (u, k) :: rest')

/-- A thread has to do these tasks before the rest. -/
def State.push (s : State) (t : Nat) (tasks : List Task) (rest : List (Nat × Task)) : State :=
  { s with tasks := tasks.map (t, ·) ++ rest }

inductive Event where
  /-- the application, in a thread of its own or in a function that was called, uses an
  operation -/
  | call (t : Nat) (op : Operation)
  | run (t : Nat)
  | answer (t : Nat) (r : Reply)
  deriving DecidableEq, Repr

/-- The code of the application runs in the thread, and can use the operation: the POA is there,
or, to make one, its parent; requests are routed to POAs that are not destroyed. -/
def State.Can (s : State) (t : Nat) (op : Operation) : Prop :=
  (∀ k ∈ (nextTask t s.tasks).map (·.1), k.waits = true) ∧
  match op with
  | .createPOA p => ∀ q ∈ w.parent p, (s.poas q).created = true
  | .incoming p _ _ => (s.poas p).created = true ∧ (s.poas p).life.destroyed = false
  | op => ∀ p ∈ op.poa, (s.poas p).created = true

instance (s : State) (t : Nat) (op : Operation) : Decidable (s.Can w t op) := by
  unfold State.Can; cases op <;> infer_instance

def State.execute (s : State) : Event → Except Stop State
  | .call t op =>
      if s.Can w t op then do
        let (s', tasks, _) ← s.perform w op
        .ok (s'.push t tasks s.tasks)
      else .ok s
  | .run t =>
      match nextTask t s.tasks with
      | some (k, rest) =>
          if k.waits then .ok s
          else do
            let (s', tasks) ← s.runTask w k
            .ok (s'.push t tasks rest)
      | none => .ok s
  | .answer t r =>
      match nextTask t s.tasks with
      | some (k, rest) =>
          if k.waits then do
            let (s', tasks) ← s.resumeTask w r k
            .ok (s'.push t tasks rest)
          else .ok s
      | none => .ok s

/-- One step of a run. Who has to wait for a lock tries again later; nothing follows an end. -/
def State.step (s : State) (e : Event) : State :=
  if s.stopped.isSome then s
  else match s.execute w e with
    | .ok s' => s'
    | .error .blocked => s
    | .error stop => { s with stopped := some stop }

def POA.init : POA where
  created := false
  life := ⟨false, false, false, false, false, false, false⟩
  nextSysid := 0
  defaultServant := none
  servantManager := false
  threadHint := .none
  map := []
  held := []
  locked := false

/-- Before the first POA is made; a new POAManager holds requests. -/
def State.init : State where
  poas := fun _ => .init
  managers := fun _ => ⟨.holding, []⟩
  objects := fun _ => none
  privates := fun _ => []
  nextObject := 0
  invocations := []
  adaptors := []
  queue := []
  nextCall := 0
  tasks := []
  visits := []
  stopped := none

/-- The states of all runs. -/
def State.run (es : List Event) : State := Runs.run (State.step w) .init es

end

end ORBit2.PortableServer
