import ORBit2.PoaState

/-! What runs inside the POA: the way of a request to its servant and back, deactivation and
destruction, and the operations of the interface. Wherever a function outside is called, the rest
is a task. -/

set_option autoImplicit false

namespace ORBit2.PortableServer

/-- `use_cnt` is a `guint16`. -/
def useCntMod : Nat := 2^16

/-- The flags that ask for a deactivation. -/
def ObjectLife.ask (life : ObjectLife) (etherealize cleanup : Bool) : ObjectLife :=
  { life with
    doEtherealize := life.doEtherealize || (etherealize && !life.deactivateDo)
    isCleanup := life.isCleanup || cleanup }

/-- The flags that leave a deactivation to the end of the request. -/
def ObjectLife.defer (life : ObjectLife) : ObjectLife :=
  { life with deactivateDo := true, needPostInvoke := true }

def ObjectLife.clear (life : ObjectLife) : ObjectLife :=
  { life with deactivateDo := false, isCleanup := false, doEtherealize := false }

section
variable (w : World)

/-- The end of `ORBit_POA_deactivate_object_T`. -/
def State.endDeactivateObject (s : State) (o : Nat) : Except Stop State := do
  let x ← s.object o
  (s.setObject o { x with life := x.life.clear }).release o

/-- The servant is etherealized and finalized. Neither may raise an exception. -/
def State.endEtherealize (s : State) (o : Nat) (raised : Bool) : Except Stop State := do
  let x ← s.object o
  let s := s.setObject o { x with useCnt := (x.useCnt + (useCntMod - 1)) % useCntMod }
  if raised then .error .error else s.endDeactivateObject o

/-- `finalize` of the servant, if it has one. -/
def State.callFinalize (s : State) (p o servant : Nat) (raised : Bool) :
    Except Stop (State × List Task) := do
  if (w.classInfo servant).finalizes then .ok (s.unlock w p, [.finalize p o servant raised])
  else .ok (← s.endEtherealize o raised, [])

/-- `ORBit_POA_deactivate_object_T`, for an object that is on no list any more. -/
def State.etherealizeObject (s : State) (p o servant : Nat) : Except Stop (State × List Task) := do
  let x ← s.object o
  if x.life.doEtherealize then
    let s := s.setObject o { x with useCnt := x.useCnt + 1 }
    if (w.policies x.poa).processing = .servantManager then
      if (s.poas x.poa).servantManager then .ok (s, [.etherealize p o servant])
      else .error .nullManager
    else s.callFinalize w p o servant false
  else .ok (← s.endDeactivateObject o, [])

/-- `ORBit_POA_deactivate_object_T` -/
def State.deactivateObject (s : State) (p o : Nat) (etherealize cleanup : Bool) :
    Except Stop (State × List Task) := do
  let x ← s.object o
  match x.servant with
  | none => .ok (s, [])
  | some servant =>
      let life := x.life.ask etherealize cleanup
      if 0 < x.useCnt then .ok (s.setObject o { x with life := life.defer }, [])
      else (← s.unlink o { x with life } servant).etherealizeObject w p o servant

/-- `finalize` has returned. -/
def State.finalized (s : State) (p o : Nat) (raised : Bool) : Except Stop State := do
  (← s.lock w p).endEtherealize o raised

/-- `ORBit_POAObject_post_invoke` -/
def State.postInvoke (s : State) (p o : Nat) : Except Stop (State × List Task) := do
  let x ← s.object o
  if 0 < x.useCnt then .ok (s, [])
  else if x.life.deactivateDo then s.deactivateObject w p o false false
  else .ok (s, [])

/-- `ORBit_POA_ServantManager_unuse_servant`. The id that `postinvoke` gets is that of the object,
which may be gone by then. -/
def State.unuseServant (s : State) (c : Call) (cookie : Nat) : Except Stop (State × List Task) := do
  let x ← s.object c.object
  if (s.poas x.poa).servantManager = false then .error .nullManager
  else match x.servant with
    | none => .error .nullServant
    | some servant => do
        let s ← s.unlink c.object x servant
        let s ← s.release c.object
        match (← s.object c.object).objectId with
        | none => .error .freed
        | some oid =>
            .ok ({ s with visits := s.visits ++ [.postinvoke c.number oid c.opname cookie servant] },
              [.postinvoke c cookie servant])

/-- What `ORBit_POAObject_handle_request` does under NON_RETAIN. -/
def State.unuse (s : State) (c : Call) (cookie : Nat) : Except Stop (State × List Task) := do
  let x ← s.object c.object
  if (w.policies x.poa).retain then .ok (s, [])
  else match (w.policies x.poa).processing with
    | .servantManager => s.unuseServant c cookie
    | .defaultServant => s.deactivateObject w c.poa c.object false false
    | .activeObjectMapOnly => .error .assertion

/-- `ORBit_POAObject_handle_request`, behind the method. -/
def State.endRequest (s : State) (c : Call) (cookie : Nat) : Except Stop (State × List Task) := do
  let (s, tasks) ← s.unuse w c cookie
  .ok (s, tasks ++ [.endUse c, .unlock c.poa])

/-- `ORBit_POAObject_handle_request`, from the servant on: it is in use, and its method is
called if there is one. -/
def State.dispatch (s : State) (c : Call) (cookie : Nat) : Except Stop (State × List Task) := do
  let x ← s.object c.object
  match x.servant with
  | none => .error .nullServant
  | some servant =>
      let s := { s.setObject c.object { x with useCnt := (x.useCnt + 1) % useCntMod } with
        invocations := c.object :: s.invocations }
      if (w.classInfo servant).implements c.opname then
        .ok ({ s.unlock w c.poa with visits := s.visits ++ [.dispatch c.number servant] },
          [.method c cookie])
      else s.endRequest w c cookie

/-- `ORBit_POAObject_handle_request`, behind the search for a servant: there may be an exception,
or still no servant. -/
def State.served (s : State) (c : Call) (cookie : Nat) (raised : Bool) :
    Except Stop (State × List Task) := do
  let x ← s.object c.object
  if raised = false ∧ x.servant ≠ none then s.dispatch w c cookie
  else .ok (s.unlock w c.poa, [])

/-- `ORBit_POAObject_handle_request`, up to the servant. -/
def State.handleRequest (s : State) (c : Call) : Except Stop (State × List Task) := do
  let x ← s.object c.object
  let p := x.poa
  let s ← s.lock w c.poa
  match (s.managers (w.manager p)).state with
  | .holding =>
      let s := if c.remote then s.setPoa p fun poa => { poa with held := c.object :: poa.held } else s
      .ok (s.unlock w c.poa, [])
  | .discarding | .inactive => .ok (s.unlock w c.poa, [])
  | .active =>
      if x.servant ≠ none then s.dispatch w c 0
      else match (w.policies p).processing with
        | .activeObjectMapOnly => .ok (s.unlock w c.poa, [])
        | .defaultServant => do
            let s ← s.activateObject w p c.object (s.poas p).defaultServant
            s.dispatch w c 0
        | .servantManager =>
            if (s.poas p).servantManager then
              .ok (s, [if (w.policies p).retain then .incarnate c else .preinvoke c])
            else .error .nullManager

/-- The end of `ORBit_POA_ServantManager_use_servant`, with what the servant manager returned. -/
def State.useServant (s : State) (c : Call) (servant : Option Nat) (raised : Bool) :
    Except Stop (State × Bool) := do
  let x ← s.object c.object
  match servant with
  | none => .ok (s, raised)
  | some sv =>
      if (w.policies x.poa).uniqueId ∧ s.privates sv ≠ [] then .ok (s, true)
      else .ok (s.link c.object x sv, raised)

/-- `incarnate` has returned. -/
def State.incarnated (s : State) (c : Call) (servant : Option Nat) (raised : Bool) :
    Except Stop (State × List Task) := do
  let (s, raised) ← s.useServant w c servant raised
  s.served w c 0 raised

/-- `preinvoke` has returned. -/
def State.preinvoked (s : State) (c : Call) (servant : Option Nat) (cookie : Nat) (raised : Bool) :
    Except Stop (State × List Task) := do
  let x ← s.object c.object
  let visits := match servant, x.objectId with
    | some sv, some oid => s.visits ++ [.preinvoke c.number oid c.opname cookie sv]
    | _, _ => s.visits
  let (s, raised) ← { s with visits }.useServant w c servant raised
  s.served w c cookie raised

/-- The method has returned. -/
def State.returned (s : State) (c : Call) (cookie : Nat) : Except Stop (State × List Task) := do
  (← s.lock w c.poa).endRequest w c cookie

/-- The request leaves the invocation stack, and the object is no longer in use by it. -/
def State.endUse (s : State) (c : Call) : Except Stop (State × List Task) := do
  let x ← s.object c.object
  let x := { x with useCnt := (x.useCnt + (useCntMod - 1)) % useCntMod }
  let s := { s.setObject c.object x with invocations := s.invocations.erase c.object }
  if x.life.needPostInvoke then s.postInvoke w c.poa c.object else .ok (s, [])

/-- `poa_recv_is_oneway`: it asks the class of the servant. -/
def State.recvIsOneway (s : State) (c : Call) : Except Stop Bool := do
  match (← s.object c.object).servant with
  | none => .error .nullServant
  | some servant => .ok ((w.classInfo servant).oneway c.opname)

/-- The requests go to this thread, with their end in
`ORBit_POAObject_invoke_incoming_request`. -/
def Call.tasks (c : Call) : List Task :=
  .request c :: if c.remote then [.release c.object] else []

/-- The second switch of `ORBit_POA_handle_request`: the request runs here, or in another
thread. -/
def State.schedule (s : State) (p : Nat) (c : Call) : Except Stop (State × List Task) :=
  let here := (s, c.tasks)
  let there := ({ s with queue := s.queue ++ [c] }, [])
  if (w.policies p).singleThread then .ok (if w.threadIo then there else here)
  else match (s.poas p).threadHint with
    | .none => .ok (if w.threadIo then there else here)
    | .perObject | .perPoa | .perConnection | .perRequest =>
        if w.threadIo then .ok there else .error .assertion
    | .onewayAtIdle => do
        let _ ← s.recvIsOneway w c
        .ok there
    | .allAtIdle | .onContext => .ok there

/-- The object of a request, and the thread it runs in. An object found gets a reference, an
object created none. -/
def State.assign (s : State) (p : Nat) (oid : Octets) (opname : Nat) :
    Except Stop (State × List Task) := do
  match ← s.objectIdLookup p oid with
  | some o => (← s.duplicate o).schedule w p ⟨p, o, opname, true, s.nextCall⟩
  | none =>
      if (w.policies p).processing = .activeObjectMapOnly then .ok (s, [])
      else
        let (s, o) ← s.createObject w p (some oid) []
        s.schedule w p ⟨p, o, opname, true, s.nextCall⟩

/-- `ORBit_POA_handle_request`, for a key with this object id -/
def State.incoming (s : State) (p : Nat) (oid : Octets) (opname : Nat) :
    Except Stop (State × List Task) := do
  let s ← s.lock w p
  let (s, tasks) ← s.assign w p oid opname
  .ok ({ s.unlock w p with nextCall := s.nextCall + 1 }, tasks)

/-- `ORBit_small_handle_request` on a reference of this process. -/
def State.invoke (s : State) (o opname : Nat) : Except Stop (State × List Task) := do
  let x ← s.object o
  if x.objref = none then .error .freed
  else .ok ({ s with nextCall := s.nextCall + 1 }, Call.tasks ⟨x.poa, o, opname, false, s.nextCall⟩)

/-- `ORBit_POA_set_life` -/
def PoaLife.set (life : PoaLife) (etherealize : Bool) : PoaLife :=
  if life.deactivateDo = false ∧ life.destroyDo = false ∧ etherealize then
    { life with doEtherealize := true }
  else life

def State.setLife (s : State) (p : Nat) (f : PoaLife → PoaLife) : State :=
  s.setPoa p fun x => { x with life := f x.life }

/-- `ORBit_POA_handle_held_requests`. The buffers of held requests were given back by
`ORBit_POAObject_invoke_incoming_request` as soon as the requests were held. -/
def State.handleHeldRequests (s : State) (p : Nat) : Except Stop State :=
  if (s.poas p).held = [] then .ok s else .error .freed

/-- The POA behind `p` in the collection of its manager. -/
def State.nextPoa (s : State) (m p : Nat) : Option Nat :=
  (((s.managers m).poaCollection.dropWhile (· ≠ p)).drop 1).head?

/-- What the caller of `ORBit_POA_deactivate` does next: the loop of
`PortableServer_POAManager_deactivate`, or the end of `ORBit_POA_destroy_T_R`. -/
def State.afterDeactivate (s : State) (p : Nat) (done : Bool) :
    Deactivator → Except Stop (State × List Task)
  | .manager m etherealize =>
      .ok (s, match s.nextPoa m p with
        | none => []
        | some q => [.deactivate q etherealize (.manager m etherealize)])
  | .destroy =>
      if done then
        let m := w.manager p
        .ok ({ s.setLife p fun l => { l with destroyed := true, destroying := false } with
          managers := Function.update s.managers m
            { s.managers m with poaCollection := (s.managers m).poaCollection.erase p } }, [])
      else .ok (s.setLife p fun l => { l with destroying := false }, [])

/-- `ORBit_POA_deactivate` up to the walk over the objects. -/
def State.deactivate (s : State) (p : Nat) (etherealize : Bool) (caller : Deactivator) :
    Except Stop (State × List Task) := do
  let s := s.setLife p fun l => { l.set etherealize with deactivateDo := true }
  let life := (s.poas p).life
  if life.deactivated then s.afterDeactivate w p true caller
  else if life.deactivating then s.afterDeactivate w p false caller
  else
    let s ← (s.setLife p fun l => { l with deactivating := true }).handleHeldRequests p
    let objects := if (w.policies p).retain then (s.poas p).map.map (·.2) else []
    .ok (s, [.traverse p objects false life.doEtherealize caller])

/-- `remove_cb` -/
def State.removeCb (s : State) (p : Nat) : State :=
  let gone (o : Nat) : Bool := (s.objects o).any fun x => x.life.destroyed
  { s.setPoa p fun x => { x with map := x.map.filter fun e => !gone e.2 } with
    objects := fun o => if gone o ∧ o ∈ (s.poas p).map.map (·.2) then none else s.objects o }

/-- `traverse_cb`, one object after the other, and what is behind the walk. -/
def State.traverse (s : State) (p : Nat) (rest : List Nat) (inUse etherealize : Bool)
    (caller : Deactivator) : Except Stop (State × List Task) := do
  match rest with
  | o :: rest =>
      let x ← s.object o
      let inUse := inUse || decide (0 < x.useCnt)
      .ok (s, [.deactivateObject p o etherealize true, .traverse p rest inUse etherealize caller])
  | [] =>
      let s := if (w.policies p).retain then s.removeCb p else s
      let s := s.setLife p fun l =>
        { l with deactivated := l.deactivated || !inUse, deactivating := false }
      s.afterDeactivate w p (!inUse) caller

/-- The POA is a child of `p` that is still in `child_poas`. -/
def State.IsChild (s : State) (p c : Nat) : Prop :=
  w.parent c = some p ∧ (s.poas c).life.destroyed = false

instance (s : State) (p c : Nat) : Decidable (s.IsChild w p c) := by
  unfold State.IsChild; infer_instance

/-- `ORBit_POA_destroy_T_R` up to the loop over the children. The lock of the POA is dropped
there. -/
def State.destroy (s : State) (p : Nat) (etherealize : Bool) : State × List Task :=
  let s := s.setLife p fun l => { l.set etherealize with destroyDo := true }
  let life := (s.poas p).life
  if life.destroyed ∨ life.deactivating ∨ life.destroying then (s, [])
  else
    ((s.setLife p fun l => { l with destroying := true }).unlock w p,
      [.destroyChildren p etherealize 0])

/-- The loop of `ORBit_POA_destroy_T_R` over all POAs of the ORB, each locked while its parent is
looked at, and what is behind it. -/
def State.destroyChildren (s : State) (p : Nat) (etherealize : Bool) (i : Nat) :
    Except Stop (State × List Task) := do
  match s.adaptors[i]? with
  | some c =>
      let next := Task.destroyChildren p etherealize (i+1)
      if (s.poas c).life.destroyed ∨ c = p then .ok (s, [next])
      else
        let locked ← s.lock w c
        if s.IsChild w p c then .ok (locked, [.destroy c etherealize, .unlock c, next])
        else .ok (s, [next])
  | none =>
      let s ← s.lock w p
      let s := s.setPoa p fun x => { x with defaultServant := none }
      if ∃ c ∈ s.adaptors, s.IsChild w p c then
        .ok (s.setLife p fun l => { l with destroying := false }, [])
      else .ok (s, [.deactivate p etherealize .destroy])

/-- The POAs below one. -/
def State.below (s : State) : Nat → Nat → List Nat
  | 0, _ => []
  | depth+1, p =>
      (s.adaptors.filter fun c => s.IsChild w p c).flatMap fun c => c :: s.below depth c

/-- `check_object_inuse_T` on the objects of a POA -/
def State.InUse (s : State) (p : Nat) : Prop :=
  ∃ e ∈ (s.poas p).map, ∃ x ∈ s.objects e.2, 0 < x.useCnt

instance (s : State) (p : Nat) : Decidable (s.InUse p) := by
  unfold State.InUse; infer_instance

end

end ORBit2.PortableServer
