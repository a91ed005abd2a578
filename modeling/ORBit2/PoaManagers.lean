import ORBit2.ReferencesById

/-! What becomes of the POAManagers: the functions of the POA leave them alone, and one that is
inactive stays so. -/

set_option autoImplicit false

namespace ORBit2.PortableServer

section
variable {w : World} {s s' s₁ : State} {ks : List Task} {o p : Nat}

theorem State.unlock_managers (s : State) (p : Nat) : (s.unlock w p).managers = s.managers := by
  unfold State.unlock
  split <;> rfl

theorem State.release_managers (hr : s.release o = .ok s') : s'.managers = s.managers := by
  unfold State.release at hr
  obtain ⟨x, -, hr⟩ := Outcomes.of_bind hr
  obtain ⟨-, hr⟩ := Outcomes.of_guard hr
  split at hr
  · unfold State.releaseCb at hr
    obtain ⟨-, hr⟩ := Outcomes.of_guard hr
    split at hr <;> cases hr <;> rfl
  · cases hr
    rfl

theorem State.duplicate_managers (hr : s.duplicate o = .ok s') : s'.managers = s.managers := by
  unfold State.duplicate at hr
  obtain ⟨x, -, hr⟩ := Outcomes.of_bind hr
  cases hr
  rfl

theorem State.createObject_managers {objid : Option Octets} {random : Octets}
    (hr : s.createObject w p objid random = .ok (s', o)) : s'.managers = s.managers := by
  unfold State.createObject at hr
  obtain ⟨oid, -, hr⟩ := Outcomes.of_bind hr
  obtain ⟨-, hr⟩ := Outcomes.of_guard hr
  cases hr
  rfl

theorem State.activateObject_managers {servant : Option Nat}
    (hr : s.activateObject w p o servant = .ok s') : s'.managers = s.managers := by
  obtain ⟨x, sv, -, -, -, -, rfl⟩ := State.activateObject_ok hr
  rfl

theorem State.objToRef_managers {intf : Bool} (hr : s.objToRef o intf = .ok s') :
    s'.managers = s.managers := by
  unfold State.objToRef at hr
  obtain ⟨x, -, hr⟩ := Outcomes.of_bind hr
  obtain ⟨-, hr⟩ := Outcomes.of_guard hr
  cases hr
  rfl

theorem State.duplicateReference_managers (hr : s.duplicateReference o = .ok s') :
    s'.managers = s.managers := by
  unfold State.duplicateReference at hr
  obtain ⟨x, -, hr⟩ := Outcomes.of_bind hr
  split at hr
  · cases hr
  · cases hr
    rfl

theorem State.releaseReference_managers (hr : s.releaseReference o = .ok s') :
    s'.managers = s.managers := by
  unfold State.releaseReference at hr
  obtain ⟨x, -, hr⟩ := Outcomes.of_bind hr
  split at hr
  · cases hr
  · split at hr
    · exact (State.release_managers hr).trans rfl
    · cases hr
      rfl

theorem State.referenceFor_managers (hr : s.referenceFor o = .ok s') : s'.managers = s.managers := by
  unfold State.referenceFor at hr
  obtain ⟨x, -, hr⟩ := Outcomes.of_bind hr
  split at hr
  · exact State.duplicateReference_managers hr
  · exact State.objToRef_managers hr

theorem State.unlink_managers {x : POAObject} {servant : Nat} (hr : s.unlink o x servant = .ok s') :
    s'.managers = s.managers := by
  unfold State.unlink at hr
  split at hr
  · cases hr
    rfl
  · cases hr

theorem State.endDeactivateObject_managers (hr : s.endDeactivateObject o = .ok s') :
    s'.managers = s.managers := by
  unfold State.endDeactivateObject at hr
  obtain ⟨x, -, hr⟩ := Outcomes.of_bind hr
  exact (State.release_managers hr).trans rfl

theorem State.endEtherealize_managers {raised : Bool} (hr : s.endEtherealize o raised = .ok s') :
    s'.managers = s.managers := by
  unfold State.endEtherealize at hr
  obtain ⟨x, -, hr⟩ := Outcomes.of_bind hr
  obtain ⟨-, hr⟩ := Outcomes.of_guard hr
  exact (State.endDeactivateObject_managers hr).trans rfl

theorem State.callFinalize_managers {servant : Nat} {raised : Bool}
    (hr : s.callFinalize w p o servant raised = .ok (s', ks)) : s'.managers = s.managers := by
  unfold State.callFinalize at hr
  split at hr
  · cases hr
    exact State.unlock_managers s p
  · obtain ⟨s₁, hs₁, hr⟩ := Outcomes.of_bind hr
    cases hr
    exact State.endEtherealize_managers hs₁

theorem State.etherealizeObject_managers {servant : Nat}
    (hr : s.etherealizeObject w p o servant = .ok (s', ks)) : s'.managers = s.managers := by
  unfold State.etherealizeObject at hr
  obtain ⟨x, -, hr⟩ := Outcomes.of_bind hr
  split at hr
  · dsimp only at hr
    split at hr
    · split at hr
      · cases hr
        rfl
      · cases hr
    · exact (State.callFinalize_managers hr).trans rfl
  · obtain ⟨s₁, hs₁, hr⟩ := Outcomes.of_bind hr
    cases hr
    exact State.endDeactivateObject_managers hs₁

theorem State.deactivateObject_managers {etherealize cleanup : Bool}
    (hr : s.deactivateObject w p o etherealize cleanup = .ok (s', ks)) : s'.managers = s.managers := by
  unfold State.deactivateObject at hr
  obtain ⟨x, -, hr⟩ := Outcomes.of_bind hr
  split at hr
  · cases hr
    rfl
  · dsimp only at hr
    split at hr
    · cases hr
      rfl
    · obtain ⟨s₁, hs₁, hr⟩ := Outcomes.of_bind hr
      exact (State.etherealizeObject_managers hr).trans (State.unlink_managers hs₁)

theorem State.finalized_managers {raised : Bool} (hr : s.finalized w p o raised = .ok s') :
    s'.managers = s.managers := by
  unfold State.finalized at hr
  obtain ⟨s₁, hs₁, hr⟩ := Outcomes.of_bind hr
  exact (State.endEtherealize_managers hr).trans (State.lock_managers hs₁)

theorem State.unuseServant_managers {c : Call} {cookie : Nat}
    (hr : s.unuseServant c cookie = .ok (s', ks)) : s'.managers = s.managers := by
  unfold State.unuseServant at hr
  obtain ⟨x, -, hr⟩ := Outcomes.of_bind hr
  obtain ⟨-, hr⟩ := Outcomes.of_guard hr
  split at hr
  · cases hr
  · obtain ⟨s₁, hs₁, hr⟩ := Outcomes.of_bind hr
    obtain ⟨s₂, hs₂, hr⟩ := Outcomes.of_bind hr
    obtain ⟨y, -, hr⟩ := Outcomes.of_bind hr
    have h : s₂.managers = s.managers :=
      (State.release_managers hs₂).trans (State.unlink_managers hs₁)
    split at hr
    · cases hr
    · cases hr
      exact h

theorem State.endRequest_managers {c : Call} {cookie : Nat}
    (hr : s.endRequest w c cookie = .ok (s', ks)) : s'.managers = s.managers := by
  unfold State.endRequest at hr
  obtain ⟨⟨s₁, tasks⟩, hs₁, hr⟩ := Outcomes.of_bind hr
  cases hr
  unfold State.unuse at hs₁
  obtain ⟨x, -, hs₁⟩ := Outcomes.of_bind hs₁
  split at hs₁
  · cases hs₁
    rfl
  · split at hs₁
    · exact State.unuseServant_managers hs₁
    · exact State.deactivateObject_managers hs₁
    · cases hs₁

theorem State.dispatch_managers {c : Call} {cookie : Nat} (hr : s.dispatch w c cookie = .ok (s', ks)) :
    s'.managers = s.managers := by
  unfold State.dispatch at hr
  obtain ⟨x, -, hr⟩ := Outcomes.of_bind hr
  split at hr
  · cases hr
  · dsimp only at hr
    split at hr
    · cases hr
      exact (State.unlock_managers _ _).trans rfl
    · exact (State.endRequest_managers hr).trans rfl

theorem State.served_managers {c : Call} {cookie : Nat} {raised : Bool}
    (hr : s.served w c cookie raised = .ok (s', ks)) : s'.managers = s.managers := by
  unfold State.served at hr
  obtain ⟨x, -, hr⟩ := Outcomes.of_bind hr
  split at hr
  · exact State.dispatch_managers hr
  · cases hr
    exact State.unlock_managers s c.poa

theorem State.handleRequest_managers {c : Call} (hr : s.handleRequest w c = .ok (s', ks)) :
    s'.managers = s.managers := by
  unfold State.handleRequest at hr
  obtain ⟨x, -, hr⟩ := Outcomes.of_bind hr
  obtain ⟨s₁, hs₁, hr⟩ := Outcomes.of_bind hr
  have h₁ : s₁.managers = s.managers := State.lock_managers hs₁
  have hunlock := (State.unlock_managers (w := w) s₁ c.poa).trans h₁
  split at hr
  · cases hr
    refine (State.unlock_managers _ _).trans ?_
    split
    · exact h₁
    · exact h₁
  · cases hr
    exact hunlock
  · cases hr
    exact hunlock
  · split at hr
    · exact (State.dispatch_managers hr).trans h₁
    · split at hr
      · cases hr
        exact hunlock
      · obtain ⟨s₂, hs₂, hr⟩ := Outcomes.of_bind hr
        exact (State.dispatch_managers hr).trans ((State.activateObject_managers hs₂).trans h₁)
      · split at hr
        · cases hr
          exact h₁
        · cases hr

theorem State.useServant_managers {c : Call} {servant : Option Nat} {raised raised' : Bool}
    (hr : s.useServant w c servant raised = .ok (s', raised')) : s'.managers = s.managers := by
  unfold State.useServant at hr
  obtain ⟨x, -, hr⟩ := Outcomes.of_bind hr
  split at hr
  · cases hr
    rfl
  · split at hr
    · cases hr
      rfl
    · cases hr
      rfl

theorem State.incarnated_managers {c : Call} {servant : Option Nat} {raised : Bool}
    (hr : s.incarnated w c servant raised = .ok (s', ks)) : s'.managers = s.managers := by
  unfold State.incarnated at hr
  obtain ⟨⟨s₁, raised'⟩, hs₁, hr⟩ := Outcomes.of_bind hr
  exact (State.served_managers hr).trans (State.useServant_managers hs₁)

theorem State.preinvoked_managers {c : Call} {servant : Option Nat} {cookie : Nat} {raised : Bool}
    (hr : s.preinvoked w c servant cookie raised = .ok (s', ks)) : s'.managers = s.managers := by
  unfold State.preinvoked at hr
  obtain ⟨x, -, hr⟩ := Outcomes.of_bind hr
  obtain ⟨⟨s₁, raised'⟩, hs₁, hr⟩ := Outcomes.of_bind hr
  have h₁ := State.useServant_managers hs₁
  exact (State.served_managers hr).trans h₁

theorem State.returned_managers {c : Call} {cookie : Nat} (hr : s.returned w c cookie = .ok (s', ks)) :
    s'.managers = s.managers := by
  unfold State.returned at hr
  obtain ⟨s₁, hs₁, hr⟩ := Outcomes.of_bind hr
  exact (State.endRequest_managers hr).trans (State.lock_managers hs₁)

theorem State.endUse_managers {c : Call} (hr : s.endUse w c = .ok (s', ks)) :
    s'.managers = s.managers := by
  unfold State.endUse at hr
  obtain ⟨x, -, hr⟩ := Outcomes.of_bind hr
  dsimp only at hr
  split at hr
  · unfold State.postInvoke at hr
    obtain ⟨y, -, hr⟩ := Outcomes.of_bind hr
    split at hr
    · cases hr
      rfl
    · split at hr
      · exact (State.deactivateObject_managers hr).trans rfl
      · cases hr
        rfl
  · cases hr
    rfl

theorem State.schedule_managers {c : Call} (hr : s.schedule w p c = .ok (s', ks)) :
    s'.managers = s.managers := by
  unfold State.schedule at hr
  dsimp only at hr
  split at hr
  · split at hr <;> cases hr <;> rfl
  · split at hr
    · split at hr <;> cases hr <;> rfl
    · split at hr <;> cases hr
      rfl
    · split at hr <;> cases hr
      rfl
    · split at hr <;> cases hr
      rfl
    · split at hr <;> cases hr
      rfl
    · obtain ⟨oneway, -, hr⟩ := Outcomes.of_bind hr
      cases hr
      rfl
    · cases hr
      rfl
    · cases hr
      rfl

theorem State.incoming_managers {oid : Octets} {opname : Nat}
    (hr : s.incoming w p oid opname = .ok (s', ks)) : s'.managers = s.managers := by
  unfold State.incoming at hr
  obtain ⟨s₁, hs₁, hr⟩ := Outcomes.of_bind hr
  obtain ⟨⟨s₂, tasks⟩, hs₂, hr⟩ := Outcomes.of_bind hr
  cases hr
  have h₁ : s₁.managers = s.managers := State.lock_managers hs₁
  have h₂ : s₂.managers = s₁.managers := by
    unfold State.assign at hs₂
    obtain ⟨found, -, hs₂⟩ := Outcomes.of_bind hs₂
    cases found with
    | some o =>
      obtain ⟨s₃, hs₃, hs₂⟩ := Outcomes.of_bind hs₂
      exact (State.schedule_managers hs₂).trans (State.duplicate_managers hs₃)
    | none =>
      dsimp only at hs₂
      split at hs₂
      · cases hs₂
        rfl
      · obtain ⟨⟨s₃, o⟩, hs₃, hs₂⟩ := Outcomes.of_bind hs₂
        exact (State.schedule_managers hs₂).trans (State.createObject_managers hs₃)
  exact (State.unlock_managers s₂ p).trans (h₂.trans h₁)

theorem State.invoke_managers {opname : Nat} (hr : s.invoke o opname = .ok (s', ks)) :
    s'.managers = s.managers := by
  unfold State.invoke at hr
  obtain ⟨x, -, hr⟩ := Outcomes.of_bind hr
  obtain ⟨-, hr⟩ := Outcomes.of_guard hr
  cases hr
  rfl

theorem State.poaActivateObject_managers {servant : Nat} {random : Octets} {r : Result}
    (hr : s.poaActivateObject w p servant random = .ok (s', r)) : s'.managers = s.managers := by
  unfold State.poaActivateObject at hr
  obtain ⟨s₁, hs₁, hr⟩ := Outcomes.of_bind hr
  have h₁ : s₁.managers = s.managers := State.lock_managers hs₁
  split at hr
  · cases hr
    exact h₁
  · split at hr
    · cases hr
      exact h₁
    · obtain ⟨⟨s₂, o⟩, hs₂, hr⟩ := Outcomes.of_bind hr
      obtain ⟨s₃, hs₃, hr⟩ := Outcomes.of_bind hr
      cases hr
      exact (State.unlock_managers s₃ p).trans ((State.activateObject_managers hs₃).trans
        ((State.createObject_managers hs₂).trans h₁))

theorem State.poaActivateObjectWithId_managers {oid : Octets} {servant : Nat} {r : Result}
    (hr : s.poaActivateObjectWithId w p oid servant = .ok (s', r)) : s'.managers = s.managers := by
  unfold State.poaActivateObjectWithId at hr
  obtain ⟨s₁, hs₁, hr⟩ := Outcomes.of_bind hr
  have h₁ : s₁.managers = s.managers := State.lock_managers hs₁
  split at hr
  · cases hr
    exact h₁
  · obtain ⟨found, -, hr⟩ := Outcomes.of_bind hr
    cases found with
    | none =>
      dsimp only at hr
      split at hr
      · cases hr
        exact (State.unlock_managers s₁ p).trans h₁
      · obtain ⟨⟨s₂, o⟩, hs₂, hr⟩ := Outcomes.of_bind hr
        obtain ⟨s₃, hs₃, hr⟩ := Outcomes.of_bind hr
        cases hr
        exact (State.unlock_managers s₃ p).trans ((State.activateObject_managers hs₃).trans
          ((State.createObject_managers hs₂).trans h₁))
    | some o =>
      obtain ⟨s₂, hs₂, hr⟩ := Outcomes.of_bind hr
      obtain ⟨x, -, hr⟩ := Outcomes.of_bind hr
      have h₂ := (State.duplicate_managers hs₂).trans h₁
      split at hr
      · obtain ⟨s₃, hs₃, hr⟩ := Outcomes.of_bind hr
        cases hr
        exact (State.unlock_managers s₃ p).trans ((State.release_managers hs₃).trans h₂)
      · split at hr
        · obtain ⟨s₃, hs₃, hr⟩ := Outcomes.of_bind hr
          cases hr
          exact (State.unlock_managers s₃ p).trans ((State.release_managers hs₃).trans h₂)
        · obtain ⟨s₃, hs₃, hr⟩ := Outcomes.of_bind hr
          obtain ⟨s₄, hs₄, hr⟩ := Outcomes.of_bind hr
          cases hr
          exact (State.unlock_managers s₄ p).trans ((State.release_managers hs₄).trans
            ((State.activateObject_managers hs₃).trans h₂))

theorem State.poaDeactivateObject_managers {oid : Octets} {r : Result}
    (hr : s.poaDeactivateObject w p oid = .ok (s', ks, r)) : s'.managers = s.managers := by
  unfold State.poaDeactivateObject at hr
  obtain ⟨s₁, hs₁, hr⟩ := Outcomes.of_bind hr
  have h₁ : s₁.managers = s.managers := State.lock_managers hs₁
  split at hr
  · cases hr
    exact h₁
  · obtain ⟨found, -, hr⟩ := Outcomes.of_bind hr
    cases found with
    | none =>
      cases hr
      exact (State.unlock_managers s₁ p).trans h₁
    | some o =>
      obtain ⟨s₂, hs₂, hr⟩ := Outcomes.of_bind hr
      cases hr
      exact (State.duplicate_managers hs₂).trans h₁

theorem State.poaCreateReference_managers {intf : Bool} {random : Octets} {r : Result}
    (hr : s.poaCreateReference w p intf random = .ok (s', r)) : s'.managers = s.managers := by
  unfold State.poaCreateReference at hr
  obtain ⟨s₁, hs₁, hr⟩ := Outcomes.of_bind hr
  have h₁ : s₁.managers = s.managers := State.lock_managers hs₁
  split at hr
  · cases hr
    exact h₁
  · obtain ⟨⟨s₂, o⟩, hs₂, hr⟩ := Outcomes.of_bind hr
    obtain ⟨s₃, hs₃, hr⟩ := Outcomes.of_bind hr
    cases hr
    exact (State.unlock_managers s₃ p).trans ((State.objToRef_managers hs₃).trans
      ((State.createObject_managers hs₂).trans h₁))

theorem State.poaCreateReferenceWithId_managers {oid : Octets} {intf : Bool} {r : Result}
    (hr : s.poaCreateReferenceWithId w p oid intf = .ok (s', r)) : s'.managers = s.managers := by
  obtain ⟨s₁, o, x, hl, hlook, hx, href, htype⟩ := State.of_poaCreateReferenceWithId hr
  rw [State.poaCreateReferenceWithId_eq hl hlook hx href htype] at hr
  cases hr
  have h₁ : s₁.managers = s.managers := State.lock_managers hl
  exact (State.unlock_managers _ p).trans h₁

theorem State.activateImplicitly_managers {servant : Nat} {random : Octets}
    (hr : s.activateImplicitly w p servant random = .ok (s', o)) : s'.managers = s.managers := by
  unfold State.activateImplicitly at hr
  obtain ⟨⟨s₁, o₁⟩, hs₁, hr⟩ := Outcomes.of_bind hr
  obtain ⟨s₂, hs₂, hr⟩ := Outcomes.of_bind hr
  cases hr
  exact (State.activateObject_managers hs₂).trans (State.createObject_managers hs₁)

theorem State.poaServantToId_managers {servant : Option Nat} {random : Octets} {r : Result}
    (hr : s.poaServantToId w p servant random = .ok (s', r)) : s'.managers = s.managers := by
  unfold State.poaServantToId at hr
  dsimp only at hr
  split at hr
  · cases hr
  · obtain ⟨s₁, hs₁, hr⟩ := Outcomes.of_bind hr
    have h₁ : s₁.managers = s.managers := State.lock_managers hs₁
    split at hr
    · cases hr
      exact h₁
    · obtain ⟨⟨s₂, oid⟩, hs₂, hr⟩ := Outcomes.of_bind hr
      cases hr
      refine (State.unlock_managers s₂ p).trans (.trans ?_ h₁)
      unfold State.servantId at hs₂
      obtain ⟨found, -, hs₂⟩ := Outcomes.of_bind hs₂
      cases found with
      | some o =>
        cases hs₂
        rfl
      | none =>
        dsimp only at hs₂
        split at hs₂
        · obtain ⟨⟨s₃, o⟩, hs₃, hs₂⟩ := Outcomes.of_bind hs₂
          cases hs₂
          exact State.activateImplicitly_managers hs₃
        · obtain ⟨oid', -, hs₂⟩ := Outcomes.of_bind hs₂
          cases hs₂
          rfl

theorem State.invocationStackLookupObjref_managers {servant : Nat} {found : Option Nat}
    (hr : s.invocationStackLookupObjref servant = .ok (s', found)) : s'.managers = s.managers := by
  unfold State.invocationStackLookupObjref at hr
  refine Outcomes.foldlM_ok (P := fun t : State × Option Nat => t.1.managers = s.managers) ?_ rfl hr
  intro t o t' ht hstep
  obtain ⟨x, -, hstep⟩ := Outcomes.of_bind hstep
  split at hstep
  · obtain ⟨s₁, hs₁, hstep⟩ := Outcomes.of_bind hstep
    cases hstep
    exact (State.objToRef_managers hs₁).trans ht
  · cases hstep
    exact ht

theorem State.poaServantToReference_managers {servant : Option Nat} {random : Octets} {r : Result}
    (hr : s.poaServantToReference w p servant random = .ok (s', r)) : s'.managers = s.managers := by
  unfold State.poaServantToReference at hr
  dsimp only at hr
  split at hr
  · cases hr
  · obtain ⟨s₁, hs₁, hr⟩ := Outcomes.of_bind hr
    have h₁ : s₁.managers = s.managers := State.lock_managers hs₁
    split at hr
    · cases hr
      exact h₁
    · obtain ⟨⟨s₂, o⟩, hs₂, hr⟩ := Outcomes.of_bind hr
      cases hr
      refine (State.unlock_managers s₂ p).trans (.trans ?_ h₁)
      unfold State.servantReference at hs₂
      dsimp only at hs₂
      split at hs₂
      · obtain ⟨s₃, hs₃, hs₂⟩ := Outcomes.of_bind hs₂
        cases hs₂
        exact State.referenceFor_managers hs₃
      · split at hs₂
        · obtain ⟨⟨s₃, o⟩, hs₃, hs₂⟩ := Outcomes.of_bind hs₂
          obtain ⟨s₄, hs₄, hs₂⟩ := Outcomes.of_bind hs₂
          cases hs₂
          exact (State.objToRef_managers hs₄).trans (State.activateImplicitly_managers hs₃)
        · exact State.invocationStackLookupObjref_managers hs₂

theorem State.poaIdToServant_managers {oid : Octets} {r : Result}
    (hr : s.poaIdToServant w p oid = .ok (s', r)) : s'.managers = s.managers := by
  unfold State.poaIdToServant at hr
  dsimp only at hr
  obtain ⟨s₁, hs₁, hr⟩ := Outcomes.of_bind hr
  have h₁ : s₁.managers = s.managers := State.lock_managers hs₁
  split at hr
  · cases hr
    exact h₁
  · split at hr
    · obtain ⟨⟨s₂, servant⟩, hs₂, hr⟩ := Outcomes.of_bind hr
      cases hr
      refine (State.unlock_managers s₂ p).trans (.trans ?_ h₁)
      unfold State.servantWithId at hs₂
      obtain ⟨found, -, hs₂⟩ := Outcomes.of_bind hs₂
      cases found with
      | none =>
        cases hs₂
        rfl
      | some o =>
        obtain ⟨s₃, hs₃, hs₂⟩ := Outcomes.of_bind hs₂
        obtain ⟨x, -, hs₂⟩ := Outcomes.of_bind hs₂
        obtain ⟨s₄, hs₄, hs₂⟩ := Outcomes.of_bind hs₂
        cases hs₂
        exact (State.release_managers hs₄).trans (State.duplicate_managers hs₃)
    · cases hr
      exact (State.unlock_managers s₁ p).trans h₁

theorem State.poaIdToReference_managers {oid : Octets} {r : Result}
    (hr : s.poaIdToReference w p oid = .ok (s', r)) : s'.managers = s.managers := by
  unfold State.poaIdToReference at hr
  obtain ⟨s₁, hs₁, hr⟩ := Outcomes.of_bind hr
  have h₁ : s₁.managers = s.managers := State.lock_managers hs₁
  split at hr
  · cases hr
    exact h₁
  · obtain ⟨found, -, hr⟩ := Outcomes.of_bind hr
    cases found with
    | none =>
      cases hr
      exact (State.unlock_managers s₁ p).trans h₁
    | some o =>
      obtain ⟨s₂, hs₂, hr⟩ := Outcomes.of_bind hr
      obtain ⟨x, -, hr⟩ := Outcomes.of_bind hr
      have h₂ := (State.duplicate_managers hs₂).trans h₁
      split at hr
      · obtain ⟨s₃, hs₃, hr⟩ := Outcomes.of_bind hr
        cases hr
        exact (State.unlock_managers s₃ p).trans ((State.release_managers hs₃).trans h₂)
      · obtain ⟨s₃, hs₃, hr⟩ := Outcomes.of_bind hr
        obtain ⟨s₄, hs₄, hr⟩ := Outcomes.of_bind hr
        cases hr
        exact (State.unlock_managers s₄ p).trans ((State.release_managers hs₄).trans
          ((State.referenceFor_managers hs₃).trans h₂))

theorem State.poaDestroy_managers {etherealize wait : Bool} {r : Result}
    (hr : s.poaDestroy w p etherealize wait = .ok (s', ks, r)) : s'.managers = s.managers := by
  unfold State.poaDestroy at hr
  obtain ⟨s₁, hs₁, hr⟩ := Outcomes.of_bind hr
  have h₁ : s₁.managers = s.managers := State.lock_managers hs₁
  dsimp only at hr
  split at hr
  · cases hr
    exact (State.unlock_managers s₁ p).trans h₁
  · obtain ⟨-, hr⟩ := Outcomes.of_guard hr
    split at hr
    · cases hr
      exact (State.unlock_managers s₁ p).trans h₁
    · cases hr
      exact h₁

/-- A manager that is inactive stays so. -/
def State.KeepsInactive (s s' : State) : Prop :=
  ∀ m, (s.managers m).state = .inactive → (s'.managers m).state = .inactive

theorem State.KeepsInactive.of_eq (h : s'.managers = s.managers) : s.KeepsInactive s' := by
  intro m hm
  rw [h]
  exact hm

/-- Another manager changes, or only the collection does. -/
theorem State.KeepsInactive.update {m : Nat} {manager : Manager}
    (h : s'.managers = Function.update s.managers m manager)
    (hm : (s.managers m).state = .inactive → manager.state = .inactive) : s.KeepsInactive s' := by
  intro m' hm'
  rw [h]
  by_cases he : m' = m
  · subst he
    rw [Function.update_self]
    exact hm hm'
  · rw [Function.update_of_ne he]
    exact hm'

theorem State.handleHeldRequests_managers {ps : List Nat}
    (hr : ps.foldlM State.handleHeldRequests s = .ok s') : s'.managers = s.managers := by
  refine Outcomes.foldlM_ok (P := fun t : State => t.managers = s.managers) ?_ rfl hr
  intro t q t' ht hstep
  unfold State.handleHeldRequests at hstep
  split at hstep
  · cases hstep
    exact ht
  · cases hstep

theorem State.KeepsInactive.managerSuspend {m : Nat} {state : POAManagerState} :
    s.KeepsInactive (s.managerSuspend m state).1 := by
  unfold State.managerSuspend
  split
  · exact .of_eq rfl
  · rename_i hm
    exact .update rfl fun h => absurd h hm

theorem State.KeepsInactive.afterDeactivate {done : Bool} {caller : Deactivator}
    (hr : s.afterDeactivate w p done caller = .ok (s', ks)) : s.KeepsInactive s' := by
  cases caller with
  | manager m etherealize =>
    cases hr
    exact .of_eq rfl
  | destroy =>
    unfold State.afterDeactivate at hr
    dsimp only at hr
    split at hr
    · cases hr
      exact .update rfl fun h => h
    · cases hr
      exact .of_eq rfl

theorem State.KeepsInactive.runTask {k : Task} (hr : s.runTask w k = .ok (s', ks)) :
    s.KeepsInactive s' := by
  cases k with
  | deactivateObject p o etherealize cleanup => exact .of_eq (State.deactivateObject_managers hr)
  | release o =>
    obtain ⟨s₁, hs₁, hr⟩ := Outcomes.of_bind hr
    cases hr
    exact .of_eq (State.release_managers hs₁)
  | unlock p =>
    cases hr
    exact .of_eq (State.unlock_managers s p)
  | request c => exact .of_eq (State.handleRequest_managers hr)
  | endUse c => exact .of_eq (State.endUse_managers hr)
  | deactivate p etherealize caller =>
    unfold State.runTask State.deactivate at hr
    dsimp only at hr
    split at hr
    · have h := State.KeepsInactive.afterDeactivate hr
      exact h
    · split at hr
      · have h := State.KeepsInactive.afterDeactivate hr
        exact h
      · obtain ⟨s₁, hs₁, hr⟩ := Outcomes.of_bind hr
        cases hr
        unfold State.handleHeldRequests at hs₁
        split at hs₁
        · cases hs₁
          exact .of_eq rfl
        · cases hs₁
  | traverse p rest inUse etherealize caller =>
    unfold State.runTask State.traverse at hr
    dsimp only at hr
    split at hr
    · obtain ⟨x, -, hr⟩ := Outcomes.of_bind hr
      cases hr
      exact .of_eq rfl
    · have h := State.KeepsInactive.afterDeactivate hr
      intro m hm
      refine h m ?_
      split
      · exact hm
      · exact hm
  | destroy p etherealize =>
    have hr := Except.ok.inj hr
    unfold State.destroy at hr
    dsimp only at hr
    split at hr
    · cases hr
      exact .of_eq rfl
    · cases hr
      exact .of_eq ((State.unlock_managers _ p).trans rfl)
  | destroyChildren p etherealize i =>
    unfold State.runTask State.destroyChildren at hr
    dsimp only at hr
    split at hr
    · split at hr
      · cases hr
        exact .of_eq rfl
      · obtain ⟨s₁, hs₁, hr⟩ := Outcomes.of_bind hr
        split at hr
        · cases hr
          exact .of_eq (State.lock_managers hs₁)
        · cases hr
          exact .of_eq rfl
    · obtain ⟨s₁, hs₁, hr⟩ := Outcomes.of_bind hr
      have h₁ : s₁.managers = s.managers := State.lock_managers hs₁
      split at hr
      · cases hr
        exact .of_eq h₁
      · cases hr
        exact .of_eq h₁
  | destroyEnd p wait =>
    obtain ⟨-, hr⟩ := Outcomes.of_guard hr
    cases hr
    exact .of_eq rfl
  | _ =>
    cases hr
    exact .of_eq rfl

theorem State.KeepsInactive.resumeTask {k : Task} {r : Reply} (hr : s.resumeTask w r k = .ok (s', ks)) :
    s.KeepsInactive s' := by
  cases k with
  | etherealize p o servant => exact .of_eq (State.callFinalize_managers hr)
  | finalize p o servant raised =>
    obtain ⟨s₁, hs₁, hr⟩ := Outcomes.of_bind hr
    cases hr
    exact .of_eq (State.finalized_managers hs₁)
  | incarnate c => exact .of_eq (State.incarnated_managers hr)
  | preinvoke c => exact .of_eq (State.preinvoked_managers hr)
  | method c cookie => exact .of_eq (State.returned_managers hr)
  | _ =>
    cases hr
    exact .of_eq rfl

theorem State.KeepsInactive.perform {op : Operation} {r : Result}
    (hr : s.perform w op = .ok (s', ks, r)) : s.KeepsInactive s' := by
  cases op with
  | createPOA p =>
    cases hr
    unfold State.poaCreate
    split
    · exact .of_eq rfl
    · exact .update rfl fun h => h
  | setThreadHint p hint =>
    cases hr
    exact .of_eq rfl
  | setServant p servant =>
    cases hr
    exact .of_eq rfl
  | setServantManager p =>
    simp only [State.perform] at hr
    split at hr
    · cases hr
      exact .of_eq rfl
    · cases hr
      exact .of_eq rfl
  | activateObject p servant random =>
    obtain ⟨⟨s₁, r₁⟩, hs₁, hr⟩ := Outcomes.of_bind hr
    cases hr
    exact .of_eq (State.poaActivateObject_managers hs₁)
  | activateObjectWithId p oid servant =>
    obtain ⟨⟨s₁, r₁⟩, hs₁, hr⟩ := Outcomes.of_bind hr
    cases hr
    exact .of_eq (State.poaActivateObjectWithId_managers hs₁)
  | deactivateObject p oid => exact .of_eq (State.poaDeactivateObject_managers hr)
  | createReference p intf random =>
    obtain ⟨⟨s₁, r₁⟩, hs₁, hr⟩ := Outcomes.of_bind hr
    cases hr
    exact .of_eq (State.poaCreateReference_managers hs₁)
  | createReferenceWithId p oid intf =>
    obtain ⟨⟨s₁, r₁⟩, hs₁, hr⟩ := Outcomes.of_bind hr
    cases hr
    exact .of_eq (State.poaCreateReferenceWithId_managers hs₁)
  | servantToId p servant random =>
    obtain ⟨⟨s₁, r₁⟩, hs₁, hr⟩ := Outcomes.of_bind hr
    cases hr
    exact .of_eq (State.poaServantToId_managers hs₁)
  | servantToReference p servant random =>
    obtain ⟨⟨s₁, r₁⟩, hs₁, hr⟩ := Outcomes.of_bind hr
    cases hr
    exact .of_eq (State.poaServantToReference_managers hs₁)
  | referenceToServant p reference =>
    obtain ⟨r₁, -, hr⟩ := Outcomes.of_bind hr
    cases hr
    exact .of_eq rfl
  | referenceToId p reference =>
    obtain ⟨r₁, -, hr⟩ := Outcomes.of_bind hr
    cases hr
    exact .of_eq rfl
  | idToServant p oid =>
    obtain ⟨⟨s₁, r₁⟩, hs₁, hr⟩ := Outcomes.of_bind hr
    cases hr
    exact .of_eq (State.poaIdToServant_managers hs₁)
  | idToReference p oid =>
    obtain ⟨⟨s₁, r₁⟩, hs₁, hr⟩ := Outcomes.of_bind hr
    cases hr
    exact .of_eq (State.poaIdToReference_managers hs₁)
  | currentGetPOA =>
    obtain ⟨r₁, -, hr⟩ := Outcomes.of_bind hr
    cases hr
    exact .of_eq rfl
  | currentGetObjectId =>
    obtain ⟨r₁, -, hr⟩ := Outcomes.of_bind hr
    cases hr
    exact .of_eq rfl
  | destroy p etherealize wait => exact .of_eq (State.poaDestroy_managers hr)
  | managerActivate m =>
    obtain ⟨⟨s₁, r₁⟩, hs₁, hr⟩ := Outcomes.of_bind hr
    cases hr
    unfold State.managerActivate at hs₁
    split at hs₁
    · cases hs₁
      exact .of_eq rfl
    · rename_i hm
      obtain ⟨s₂, hs₂, hs₁⟩ := Outcomes.of_bind hs₁
      cases hs₁
      exact .update (State.handleHeldRequests_managers hs₂) fun h => absurd h hm
  | holdRequests m =>
    have hs₁ : (s.managerSuspend m .holding).1 = s' := congrArg Prod.fst (Except.ok.inj hr)
    exact hs₁ ▸ .managerSuspend
  | discardRequests m =>
    have hs₁ : (s.managerSuspend m .discarding).1 = s' := congrArg Prod.fst (Except.ok.inj hr)
    exact hs₁ ▸ .managerSuspend
  | managerDeactivate m etherealize wait =>
    unfold State.perform State.managerDeactivate at hr
    dsimp only at hr
    split at hr
    · cases hr
      exact .of_eq rfl
    · obtain ⟨-, hr⟩ := Outcomes.of_guard hr
      split at hr
      · cases hr
        exact .of_eq rfl
      · cases hr
        exact .update rfl fun _ => rfl
  | duplicateReference o =>
    obtain ⟨s₁, hs₁, hr⟩ := Outcomes.of_bind hr
    cases hr
    exact .of_eq (State.duplicateReference_managers hs₁)
  | releaseReference o =>
    obtain ⟨s₁, hs₁, hr⟩ := Outcomes.of_bind hr
    cases hr
    exact .of_eq (State.releaseReference_managers hs₁)
  | invoke o opname =>
    obtain ⟨⟨s₁, ks₁⟩, hs₁, hr⟩ := Outcomes.of_bind hr
    cases hr
    exact .of_eq (State.invoke_managers hs₁)
  | incoming p oid opname =>
    obtain ⟨⟨s₁, ks₁⟩, hs₁, hr⟩ := Outcomes.of_bind hr
    cases hr
    exact .of_eq (State.incoming_managers hs₁)
  | serve i =>
    simp only [State.perform] at hr
    split at hr
    · cases hr
      exact .of_eq rfl
    · cases hr
      exact .of_eq rfl

theorem State.KeepsInactive.execute {e : Event} (hr : s.execute w e = .ok s') : s.KeepsInactive s' := by
  cases e with
  | call t op =>
    unfold State.execute at hr
    dsimp only at hr
    split at hr
    · obtain ⟨⟨s₁, ks, r⟩, hs₁, hr⟩ := Outcomes.of_bind hr
      cases hr
      have h := State.KeepsInactive.perform hs₁
      exact h
    · cases hr
      exact .of_eq rfl
  | run t =>
    unfold State.execute at hr
    dsimp only at hr
    split at hr
    · split at hr
      · cases hr
        exact .of_eq rfl
      · obtain ⟨⟨s₁, ks⟩, hs₁, hr⟩ := Outcomes.of_bind hr
        cases hr
        have h := State.KeepsInactive.runTask hs₁
        exact h
    · cases hr
      exact .of_eq rfl
  | answer t r =>
    unfold State.execute at hr
    dsimp only at hr
    split at hr
    · split at hr
      · obtain ⟨⟨s₁, ks⟩, hs₁, hr⟩ := Outcomes.of_bind hr
        cases hr
        have h := State.KeepsInactive.resumeTask hs₁
        exact h
      · cases hr
        exact .of_eq rfl
    · cases hr
      exact .of_eq rfl

theorem State.keepsInactive_step (w : World) (s : State) (e : Event) : s.KeepsInactive (s.step w e) := by
  unfold State.step
  split
  · exact .of_eq rfl
  · split
    · rename_i s₁ hs₁
      exact State.KeepsInactive.execute hs₁
    · exact .of_eq rfl
    · exact .of_eq rfl

end

end ORBit2.PortableServer
