import ORBit2.PoaLocks

/-! The locks of the POAs in all runs: a POA is locked exactly while an operation or a request of
some thread has still to unlock it. -/

set_option autoImplicit false

namespace ORBit2.PortableServer

/-- The deactivation goes straight to the finalizer of the servant. -/
def POAObject.Finalizes (w : World) (x : POAObject) (servant : Nat) : Prop :=
  x.life.doEtherealize = true ∧ (w.policies x.poa).processing ≠ .servantManager ∧
    (w.classInfo servant).finalizes = true

instance (w : World) (x : POAObject) (servant : Nat) : Decidable (x.Finalizes w servant) := by
  unfold POAObject.Finalizes; infer_instance

section
variable {w : World} {s s' s₁ : State} {ks ls : List Task} {o p : Nat} {x : POAObject}

/-- A deactivation that calls no finalizer. -/
theorem State.SameLocks.deactivateObject {etherealize cleanup : Bool}
    (hq : ∀ x ∈ s.objects o, ∀ servant ∈ x.servant, x.useCnt = 0 →
      ¬ POAObject.Finalizes w { x with life := x.life.ask etherealize cleanup } servant)
    (hr : s.deactivateObject w p o etherealize cleanup = .ok (s', ls)) :
    s.SameLocks s' ∧ (ls = [] ∨ ∃ servant, ls = [.etherealize p o servant]) := by
  unfold State.deactivateObject at hr
  obtain ⟨x, hx, hr⟩ := Outcomes.of_bind hr
  split at hr
  · cases hr
    exact ⟨.refl s, .inl rfl⟩
  · rename_i servant hsv
    dsimp only at hr
    split at hr
    · cases hr
      exact ⟨.refl s, .inl rfl⟩
    · rename_i hzero
      have hq := hq x (State.object_ok hx) servant hsv (by omega)
      obtain ⟨s₁, hs₁, hr⟩ := Outcomes.of_bind hr
      have h₁ : s.SameLocks s₁ := .unlink hs₁
      unfold State.unlink at hs₁
      split at hs₁
      · have hobj : s₁.object o = .ok { x with
            life := x.life.ask etherealize cleanup, servant := none } := by
          cases hs₁
          exact State.object_setObject s o _
        unfold State.etherealizeObject at hr
        rw [hobj, Outcomes.ok_bind] at hr
        dsimp only at hr
        split at hr
        · rename_i heth
          split at hr
          · split at hr
            · cases hr
              exact ⟨.trans h₁ .setObject, .inr ⟨servant, rfl⟩⟩
            · cases hr
          · rename_i hproc
            unfold State.callFinalize at hr
            rw [if_neg fun hfin => hq ⟨heth, hproc, hfin⟩] at hr
            obtain ⟨s₂, hs₂, hr⟩ := Outcomes.of_bind hr
            cases hr
            exact ⟨.trans h₁ (.trans .setObject (.endEtherealize hs₂)), .inl rfl⟩
        · obtain ⟨s₂, hs₂, hr⟩ := Outcomes.of_bind hr
          cases hr
          exact ⟨.trans h₁ (.endDeactivateObject hs₂), .inl rfl⟩
      · cases hs₁

theorem LockStep.deactivateObject {etherealize cleanup : Bool} (hts : w.threadSafe = true)
    (hst : Standing s (.deactivateObject p o etherealize cleanup :: ks))
    (hq : lockCount p ks = 1 ∨ ∀ x ∈ s.objects o, ∀ servant ∈ x.servant, x.useCnt = 0 →
      ¬ POAObject.Finalizes w { x with life := x.life.ask etherealize cleanup } servant)
    (hr : s.deactivateObject w p o etherealize cleanup = .ok (s', ls)) :
    LockStep s s' (.deactivateObject p o etherealize cleanup :: ks) (ls ++ ks) := by
  rcases hq with hk | hq
  · have hk' : lockCount p (.deactivateObject p o etherealize cleanup :: ks) = 1 := by
      simp [Task.lockWeight, hk]
    have hs := hst.held p hk'
    refine ((Guarded.deactivateObject hts hs hst.proper.2 hk hr).below fun q _ => ?_).step_held hs hk'
    simp [Task.lockWeight]
  · obtain ⟨hsame, hls⟩ := State.SameLocks.deactivateObject hq hr
    rcases hls with rfl | ⟨servant, rfl⟩
    · exact .of_same hsame hst.proper.2 fun q => by simp [Task.lockWeight]
    · exact .of_same hsame ⟨hst.proper.1, hst.proper.2⟩ fun q => by simp [Task.lockWeight]

theorem LockStep.callFinalize {servant : Nat} {raised : Bool} (hts : w.threadSafe = true)
    (hst : Standing s (.etherealize p o servant :: ks))
    (hq : lockCount p ks = 1 ∨ (w.classInfo servant).finalizes = false)
    (hr : s.callFinalize w p o servant raised = .ok (s', ls)) :
    LockStep s s' (.etherealize p o servant :: ks) (ls ++ ks) := by
  rcases hq with hk | hq
  · have hk' : lockCount p (.etherealize p o servant :: ks) = 1 := by simp [Task.lockWeight, hk]
    have hs := hst.held p hk'
    refine ((Guarded.callFinalize hts hs hst.proper.2 hk hr).below fun q _ => ?_).step_held hs hk'
    simp [Task.lockWeight]
  · unfold State.callFinalize at hr
    rw [if_neg (by simp [hq])] at hr
    obtain ⟨s₁, hs₁, hr⟩ := Outcomes.of_bind hr
    cases hr
    exact .of_same (.endEtherealize hs₁) hst.proper.2 fun q => by simp [Task.lockWeight]

theorem LockStep.unlock (hts : w.threadSafe = true) (hst : Standing s (.unlock p :: ks)) :
    LockStep s (s.unlock w p) (.unlock p :: ks) ks where
  proper := hst.proper.2
  locks q := by
    have hk : lockCount p ks = 0 := hst.proper.1
    obtain ⟨hhere, hothers⟩ := State.unlock_locked hts s p
    by_cases hq : q = p
    · subst hq
      exact .inr (.inr ⟨by simp [Task.lockWeight, hk], hhere, hk⟩)
    · exact .inl ⟨hothers q hq, by simp [Task.lockWeight, Ne.symm hq]⟩

theorem State.SameLocks.setLife {f : PoaLife → PoaLife} : s.SameLocks (s.setLife p f) :=
  .setPoa fun _ => rfl

theorem State.SameLocks.removeCb : s.SameLocks (s.removeCb p) := by
  have h : s.SameLocks (s.setPoa p fun x => { x with
    map := x.map.filter fun e => !(s.objects e.2).any fun x => x.life.destroyed }) :=
    .setPoa fun _ => rfl
  exact h

/-- Behind a deactivation nothing is left to do that needs the lock. -/
theorem State.SameLocks.afterDeactivate {done : Bool} {caller : Deactivator}
    (hr : s.afterDeactivate w p done caller = .ok (s', ls)) : s.SameLocks s' ∧
      (ls = [] ∨ ∃ q m etherealize, ls = [.deactivate q etherealize (.manager m etherealize)]) := by
  unfold State.afterDeactivate at hr
  split at hr
  · cases hr
    refine ⟨.refl s, ?_⟩
    split
    · exact .inl rfl
    · exact .inr ⟨_, _, _, rfl⟩
  · split at hr
    · cases hr
      have h : s.SameLocks (s.setLife p fun l => { l with destroyed := true, destroying := false }) :=
        .setLife
      exact ⟨h, .inl rfl⟩
    · cases hr
      exact ⟨.setLife, .inl rfl⟩

theorem LockStep.afterDeactivate {done : Bool} {caller : Deactivator} {k : Task}
    (hk : ∀ q, k.lockWeight q = 0) (hp : Proper ks) (h₁ : s.SameLocks s₁)
    (hr : s₁.afterDeactivate w p done caller = .ok (s', ls)) : LockStep s s' (k :: ks) (ls ++ ks) := by
  obtain ⟨hsame, hls⟩ := State.SameLocks.afterDeactivate hr
  rcases hls with rfl | ⟨q, m, etherealize, rfl⟩
  · exact .of_same (.trans h₁ hsame) hp fun q => by simp [hk]
  · refine .of_same (.trans h₁ hsame) ⟨trivial, hp⟩ fun r => ?_
    have hnone : (Task.deactivate q etherealize (.manager m etherealize)).lockWeight r = 0 := rfl
    simp [hk r, hnone]

theorem LockStep.deactivate {etherealize : Bool} {caller : Deactivator}
    (hst : Standing s (.deactivate p etherealize caller :: ks))
    (hr : s.deactivate w p etherealize caller = .ok (s', ls)) :
    LockStep s s' (.deactivate p etherealize caller :: ks) (ls ++ ks) := by
  unfold State.deactivate at hr
  dsimp only at hr
  split at hr
  · exact .afterDeactivate (fun _ => rfl) hst.proper.2 .setLife hr
  · split at hr
    · exact .afterDeactivate (fun _ => rfl) hst.proper.2 .setLife hr
    · obtain ⟨s₁, hs₁, hr⟩ := Outcomes.of_bind hr
      unfold State.handleHeldRequests at hs₁
      split at hs₁
      · cases hs₁
        cases hr
        refine .of_same (.trans .setLife .setLife) ⟨?_, hst.proper.2⟩ fun q => by
          simp [Task.lockWeight]
        cases caller with
        | manager m e => trivial
        | destroy => exact hst.proper.1
      · cases hs₁

theorem LockStep.traverse {rest : List Nat} {inUse etherealize : Bool} {caller : Deactivator}
    (hst : Standing s (.traverse p rest inUse etherealize caller :: ks))
    (hr : s.traverse w p rest inUse etherealize caller = .ok (s', ls)) :
    LockStep s s' (.traverse p rest inUse etherealize caller :: ks) (ls ++ ks) := by
  cases rest with
  | nil =>
    unfold State.traverse at hr
    have h' : s.SameLocks (if (w.policies p).retain then s.removeCb p else s) := by
      split
      · exact .removeCb
      · exact .refl s
    exact .afterDeactivate (fun _ => rfl) hst.proper.2 (.trans h' .setLife) hr
  | cons o rest =>
    unfold State.traverse at hr
    obtain ⟨x, -, hr⟩ := Outcomes.of_bind hr
    cases hr
    refine .of_same (.refl s) ⟨?_, ?_, hst.proper.2⟩ fun q => by simp [Task.lockWeight]
    · cases caller with
      | manager m e => exact .inr trivial
      | destroy =>
        have hk : lockCount p ks = 1 := hst.proper.1
        exact .inl (by simp [Task.lockWeight, hk])
    · cases caller with
      | manager m e => trivial
      | destroy => exact hst.proper.1

theorem LockStep.destroy {etherealize : Bool} (hts : w.threadSafe = true)
    (hst : Standing s (.destroy p etherealize :: ks))
    (hr : s.destroy w p etherealize = (s', ls)) :
    LockStep s s' (.destroy p etherealize :: ks) (ls ++ ks) := by
  have hk : lockCount p ks = 1 := hst.proper.1
  have hk' : lockCount p (.destroy p etherealize :: ks) = 1 := by simp [Task.lockWeight, hk]
  have hs := hst.held p hk'
  unfold State.destroy at hr
  dsimp only at hr
  split at hr
  · cases hr
    exact .of_same .setLife hst.proper.2 fun q => by simp [Task.lockWeight]
  · cases hr
    refine Guarded.step_held (.of_unlock hts ⟨hk, hst.proper.2⟩ ?_ (fun q hq => ?_)
      (.trans .setLife .setLife)) hs hk'
    · simp [Task.lockWeight, hk]
    · simp [Task.lockWeight, Ne.symm hq]

theorem LockStep.destroyChildren {etherealize : Bool} {i : Nat} (hts : w.threadSafe = true)
    (hst : Standing s (.destroyChildren p etherealize i :: ks))
    (hr : s.destroyChildren w p etherealize i = .ok (s', ls)) :
    LockStep s s' (.destroyChildren p etherealize i :: ks) (ls ++ ks) := by
  have hk : lockCount p ks = 1 := hst.proper.1
  have hk' : lockCount p (.destroyChildren p etherealize i :: ks) = 0 := by
    simp [Task.lockWeight, hk]
  have hnext : LockStep s s (.destroyChildren p etherealize i :: ks)
      (.destroyChildren p etherealize (i+1) :: ks) :=
    .of_same (.refl s) ⟨hk, hst.proper.2⟩ fun q => by simp [Task.lockWeight]
  unfold State.destroyChildren at hr
  split at hr
  · rename_i c hc
    dsimp only at hr
    split at hr
    · cases hr
      exact hnext
    · rename_i hcp
      rw [not_or] at hcp
      obtain ⟨locked, hlocked, hr⟩ := Outcomes.of_bind hr
      split at hr
      · cases hr
        obtain ⟨hfree, htaken, -⟩ := State.lock_locked hts hlocked
        have hcount : lockCount c (.destroyChildren p etherealize (i+1) :: ks) = 0 := by
          have := hst.free hfree
          simpa [Task.lockWeight] using this
        refine Guarded.step_taken ?_ hts hlocked (hst.free hfree)
        refine .of_same htaken (.refl _) ⟨?_, hcount, hk, hst.proper.2⟩ ?_ fun q hq => ?_
        · show lockCount c (.unlock c :: .destroyChildren p etherealize (i+1) :: ks) = 1
          rw [lockCount_cons, hcount]
          simp [Task.lockWeight]
        · show lockCount c (.destroy c etherealize :: .unlock c ::
            .destroyChildren p etherealize (i+1) :: ks) = 1
          rw [lockCount_cons, lockCount_cons, hcount]
          simp [Task.lockWeight]
        · simp [Task.lockWeight, Ne.symm hq]
      · cases hr
        exact hnext
  · obtain ⟨s₁, hs₁, hr⟩ := Outcomes.of_bind hr
    obtain ⟨-, htaken, -⟩ := State.lock_locked hts hs₁
    have h₁ : s₁.SameLocks (s₁.setPoa p fun x => { x with defaultServant := none }) :=
      .setPoa fun _ => rfl
    dsimp only at hr
    split at hr
    · cases hr
      refine Guarded.step_taken ?_ hts hs₁ hk'
      refine .of_same htaken (.trans h₁ .setLife) hst.proper.2 hk fun q hq => ?_
      simp [Task.lockWeight, Ne.symm hq]
    · cases hr
      refine Guarded.step_taken ?_ hts hs₁ hk'
      refine .of_same htaken h₁ ⟨hk, hst.proper.2⟩ ?_ fun q hq => ?_
      · simp [Task.lockWeight, hk]
      · simp [Task.lockWeight, Ne.symm hq]

end

/-- The exits through a precondition of the policies, which do not pass the unlock: the lock is
left to nobody. -/
def Operation.LeavesLocked (w : World) (s : State) : Operation → Prop
  | .activateObject p servant _ => (w.policies p).retain = false ∨ (w.policies p).systemId = false ∨
      ((w.policies p).uniqueId = true ∧ s.privates servant ≠ [])
  | .activateObjectWithId p _ _ | .deactivateObject p _ | .idToReference p _ =>
      (w.policies p).retain = false
  | .createReference p _ _ => (w.policies p).systemId = false
  | .servantToId p servant _ => servant ≠ none ∧ ¬ ((w.policies p).processing = .defaultServant ∨
      ((w.policies p).retain = true ∧
        ((w.policies p).uniqueId = true ∨ (w.policies p).implicitActivation = true)))
  | .servantToReference p servant _ => servant ≠ none ∧ ¬ ((w.policies p).retain = true ∧
      ((w.policies p).uniqueId = true ∨ (w.policies p).implicitActivation = true))
  | .idToServant p _ => (w.policies p).processing ≠ .defaultServant ∧ (w.policies p).retain = false
  | _ => False

instance (w : World) (s : State) (op : Operation) : Decidable (op.LeavesLocked w s) := by
  unfold Operation.LeavesLocked; induction op using Operation.casesOn <;> infer_instance

section
variable {w : World} {s s' s₁ : State} {ks ls : List Task} {o p : Nat} {r : Result}

theorem State.SameLocks.poaActivateObject {servant : Nat} {random : Octets}
    (hts : w.threadSafe = true) (hq : ¬ (Operation.activateObject p servant random).LeavesLocked w s)
    (hr : s.poaActivateObject w p servant random = .ok (s', r)) : s.SameLocks s' := by
  simp only [Operation.LeavesLocked, not_or, not_and_or, Decidable.not_not] at hq
  obtain ⟨hretain, hsystem, hunique⟩ := hq
  unfold State.poaActivateObject at hr
  obtain ⟨s₁, hs₁, hr⟩ := Outcomes.of_bind hr
  rw [if_neg (by simp [hretain, hsystem]), State.lock_privates hs₁] at hr
  rw [if_neg (by rw [not_and_or, Decidable.not_not]; exact hunique)] at hr
  obtain ⟨⟨s₂, o⟩, hs₂, hr⟩ := Outcomes.of_bind hr
  obtain ⟨s₃, hs₃, hr⟩ := Outcomes.of_bind hr
  cases hr
  exact .unlock hts hs₁ (.trans (.createObject hs₂) (.activateObject hs₃))

theorem State.SameLocks.poaActivateObjectWithId {oid : Octets} {servant : Nat}
    (hts : w.threadSafe = true) (hq : (w.policies p).retain = true)
    (hr : s.poaActivateObjectWithId w p oid servant = .ok (s', r)) : s.SameLocks s' := by
  unfold State.poaActivateObjectWithId at hr
  obtain ⟨s₁, hs₁, hr⟩ := Outcomes.of_bind hr
  rw [if_neg (by simp [hq])] at hr
  obtain ⟨found, -, hr⟩ := Outcomes.of_bind hr
  split at hr
  · split at hr
    · cases hr
      exact .unlock hts hs₁ (.refl s₁)
    · obtain ⟨⟨s₂, o⟩, hs₂, hr⟩ := Outcomes.of_bind hr
      obtain ⟨s₃, hs₃, hr⟩ := Outcomes.of_bind hr
      cases hr
      exact .unlock hts hs₁ (.trans (.createObject hs₂) (.activateObject hs₃))
  · obtain ⟨s₂, hs₂, hr⟩ := Outcomes.of_bind hr
    have h₂ : s₁.SameLocks s₂ := .duplicate hs₂
    obtain ⟨x, -, hr⟩ := Outcomes.of_bind hr
    split at hr
    · obtain ⟨s₃, hs₃, hr⟩ := Outcomes.of_bind hr
      cases hr
      exact .unlock hts hs₁ (.trans h₂ (.release hs₃))
    · split at hr
      · obtain ⟨s₃, hs₃, hr⟩ := Outcomes.of_bind hr
        cases hr
        exact .unlock hts hs₁ (.trans h₂ (.release hs₃))
      · obtain ⟨s₃, hs₃, hr⟩ := Outcomes.of_bind hr
        obtain ⟨s₄, hs₄, hr⟩ := Outcomes.of_bind hr
        cases hr
        exact .unlock hts hs₁ (.trans h₂ (.trans (.activateObject hs₃) (.release hs₄)))

theorem State.SameLocks.poaCreateReference {intf : Bool} {random : Octets}
    (hts : w.threadSafe = true) (hq : (w.policies p).systemId = true)
    (hr : s.poaCreateReference w p intf random = .ok (s', r)) : s.SameLocks s' := by
  unfold State.poaCreateReference at hr
  obtain ⟨s₁, hs₁, hr⟩ := Outcomes.of_bind hr
  rw [if_neg (by simp [hq])] at hr
  obtain ⟨⟨s₂, o⟩, hs₂, hr⟩ := Outcomes.of_bind hr
  obtain ⟨s₃, hs₃, hr⟩ := Outcomes.of_bind hr
  cases hr
  exact .unlock hts hs₁ (.trans (.createObject hs₂) (.objToRef hs₃))

theorem State.SameLocks.poaCreateReferenceWithId {oid : Octets} {intf : Bool}
    (hts : w.threadSafe = true) (hr : s.poaCreateReferenceWithId w p oid intf = .ok (s', r)) :
    s.SameLocks s' := by
  unfold State.poaCreateReferenceWithId at hr
  obtain ⟨s₁, hs₁, hr⟩ := Outcomes.of_bind hr
  obtain ⟨found, -, hr⟩ := Outcomes.of_bind hr
  split at hr
  · obtain ⟨made, -, hr⟩ := Outcomes.of_bind hr
    cases hr
  · obtain ⟨s₂, hs₂, hr⟩ := Outcomes.of_bind hr
    obtain ⟨s₃, hs₃, hr⟩ := Outcomes.of_bind hr
    obtain ⟨s₄, hs₄, hr⟩ := Outcomes.of_bind hr
    cases hr
    exact .unlock hts hs₁ (.trans (.duplicate hs₂) (.trans (.objToRef hs₃) (.release hs₄)))

theorem State.SameLocks.activateImplicitly {servant : Nat} {random : Octets}
    (hr : s.activateImplicitly w p servant random = .ok (s', o)) : s.SameLocks s' := by
  unfold State.activateImplicitly at hr
  obtain ⟨⟨s₁, o'⟩, hs₁, hr⟩ := Outcomes.of_bind hr
  obtain ⟨s₂, hs₂, hr⟩ := Outcomes.of_bind hr
  cases hr
  exact .trans (.createObject hs₁) (.activateObject hs₂)

theorem State.SameLocks.servantId {servant : Nat} {random : Octets} {oid : Option Octets}
    (hr : s.servantId w p servant random = .ok (s', oid)) : s.SameLocks s' := by
  unfold State.servantId at hr
  obtain ⟨found, -, hr⟩ := Outcomes.of_bind hr
  split at hr
  · cases hr
    exact .refl s
  · split at hr
    · obtain ⟨⟨s₁, o⟩, hs₁, hr⟩ := Outcomes.of_bind hr
      cases hr
      exact .activateImplicitly hs₁
    · obtain ⟨oid', -, hr⟩ := Outcomes.of_bind hr
      cases hr
      exact .refl s

theorem State.SameLocks.poaServantToId {servant : Option Nat} {random : Octets}
    (hts : w.threadSafe = true) (hq : ¬ (Operation.servantToId p servant random).LeavesLocked w s)
    (hr : s.poaServantToId w p servant random = .ok (s', r)) : s.SameLocks s' := by
  unfold State.poaServantToId at hr
  cases servant with
  | none => cases hr
  | some servant =>
    obtain ⟨s₁, hs₁, hr⟩ := Outcomes.of_bind hr
    split at hr
    · rename_i hpol
      exact absurd ⟨by simp, hpol⟩ hq
    · obtain ⟨⟨s₂, oid⟩, hs₂, hr⟩ := Outcomes.of_bind hr
      cases hr
      exact .unlock hts hs₁ (.servantId hs₂)

theorem State.SameLocks.invocationStackLookupObjref {servant : Nat} {found : Option Nat}
    (hr : s.invocationStackLookupObjref servant = .ok (s', found)) : s.SameLocks s' := by
  unfold State.invocationStackLookupObjref at hr
  refine Outcomes.foldlM_ok (P := fun found : State × Option Nat => s.SameLocks found.1) ?_
    (.refl s) hr
  intro found o found' h hr
  obtain ⟨x, -, hr⟩ := Outcomes.of_bind hr
  split at hr
  · obtain ⟨s₁, hs₁, hr⟩ := Outcomes.of_bind hr
    cases hr
    exact .trans h (.objToRef hs₁)
  · cases hr
    exact h

theorem State.SameLocks.servantReference {servant : Nat} {random : Octets} {found : Option Nat}
    (hr : s.servantReference w p servant random = .ok (s', found)) : s.SameLocks s' := by
  unfold State.servantReference at hr
  dsimp only at hr
  split at hr
  · obtain ⟨s₁, hs₁, hr⟩ := Outcomes.of_bind hr
    cases hr
    exact .referenceFor hs₁
  · split at hr
    · obtain ⟨⟨s₁, o⟩, hs₁, hr⟩ := Outcomes.of_bind hr
      obtain ⟨s₂, hs₂, hr⟩ := Outcomes.of_bind hr
      cases hr
      exact .trans (.activateImplicitly hs₁) (.objToRef hs₂)
    · exact .invocationStackLookupObjref hr

theorem State.SameLocks.poaServantToReference {servant : Option Nat} {random : Octets}
    (hts : w.threadSafe = true)
    (hq : ¬ (Operation.servantToReference p servant random).LeavesLocked w s)
    (hr : s.poaServantToReference w p servant random = .ok (s', r)) : s.SameLocks s' := by
  unfold State.poaServantToReference at hr
  cases servant with
  | none => cases hr
  | some servant =>
    obtain ⟨s₁, hs₁, hr⟩ := Outcomes.of_bind hr
    split at hr
    · rename_i hpol
      exact absurd ⟨by simp, hpol⟩ hq
    · obtain ⟨⟨s₂, o⟩, hs₂, hr⟩ := Outcomes.of_bind hr
      cases hr
      exact .unlock hts hs₁ (.servantReference hs₂)

theorem State.SameLocks.poaIdToServant {oid : Octets} (hts : w.threadSafe = true)
    (hq : ¬ (Operation.idToServant p oid).LeavesLocked w s)
    (hr : s.poaIdToServant w p oid = .ok (s', r)) : s.SameLocks s' := by
  unfold State.poaIdToServant at hr
  obtain ⟨s₁, hs₁, hr⟩ := Outcomes.of_bind hr
  have hpol : ¬ ((w.policies p).processing ≠ .defaultServant ∧ (w.policies p).retain = false) := hq
  rw [if_neg hpol] at hr
  split at hr
  · obtain ⟨⟨s₂, servant⟩, hs₂, hr⟩ := Outcomes.of_bind hr
    cases hr
    refine .unlock hts hs₁ ?_
    unfold State.servantWithId at hs₂
    obtain ⟨found, -, hs₂⟩ := Outcomes.of_bind hs₂
    split at hs₂
    · obtain ⟨s₃, hs₃, hs₂⟩ := Outcomes.of_bind hs₂
      obtain ⟨x, -, hs₂⟩ := Outcomes.of_bind hs₂
      obtain ⟨s₄, hs₄, hs₂⟩ := Outcomes.of_bind hs₂
      cases hs₂
      exact .trans (.duplicate hs₃) (.release hs₄)
    · cases hs₂
      exact .refl s₁
  · cases hr
    exact .unlock hts hs₁ (.refl s₁)

theorem State.SameLocks.poaIdToReference {oid : Octets} (hts : w.threadSafe = true)
    (hq : (w.policies p).retain = true) (hr : s.poaIdToReference w p oid = .ok (s', r)) :
    s.SameLocks s' := by
  unfold State.poaIdToReference at hr
  obtain ⟨s₁, hs₁, hr⟩ := Outcomes.of_bind hr
  rw [if_neg (by simp [hq])] at hr
  obtain ⟨found, -, hr⟩ := Outcomes.of_bind hr
  split at hr
  · cases hr
    exact .unlock hts hs₁ (.refl s₁)
  · obtain ⟨s₂, hs₂, hr⟩ := Outcomes.of_bind hr
    have h₂ : s₁.SameLocks s₂ := .duplicate hs₂
    obtain ⟨x, -, hr⟩ := Outcomes.of_bind hr
    split at hr
    · obtain ⟨s₃, hs₃, hr⟩ := Outcomes.of_bind hr
      cases hr
      exact .unlock hts hs₁ (.trans h₂ (.release hs₃))
    · obtain ⟨s₃, hs₃, hr⟩ := Outcomes.of_bind hr
      obtain ⟨s₄, hs₄, hr⟩ := Outcomes.of_bind hr
      cases hr
      exact .unlock hts hs₁ (.trans h₂ (.trans (.referenceFor hs₃) (.release hs₄)))

theorem lockCount_tasks (c : Call) (q : Nat) : lockCount q c.tasks = 0 := by
  unfold Call.tasks
  split <;> simp [Task.lockWeight]

theorem Proper.tasks {c : Call} (hp : Proper ks) : Proper (c.tasks ++ ks) := by
  unfold Call.tasks
  split
  · exact ⟨trivial, trivial, hp⟩
  · exact ⟨trivial, hp⟩

/-- Behind a request that came in, there is at most the request itself to be done. -/
theorem State.SameLocks.assign {oid : Octets} {opname : Nat}
    (hr : s.assign w p oid opname = .ok (s', ls)) :
    s.SameLocks s' ∧ (ls = [] ∨ ∃ c : Call, ls = c.tasks) := by
  have hschedule : ∀ {s₁ : State} {c : Call}, s.SameLocks s₁ →
      s₁.schedule w p c = .ok (s', ls) → s.SameLocks s' ∧ (ls = [] ∨ ∃ c : Call, ls = c.tasks) := by
    intro s₁ c h₁ hr
    rcases State.schedule_ok hr with he | he
    · cases he
      exact ⟨h₁, .inr ⟨c, rfl⟩⟩
    · cases he
      exact ⟨h₁, .inl rfl⟩
  unfold State.assign at hr
  obtain ⟨found, -, hr⟩ := Outcomes.of_bind hr
  split at hr
  · obtain ⟨s₁, hs₁, hr⟩ := Outcomes.of_bind hr
    exact hschedule (.duplicate hs₁) hr
  · split at hr
    · cases hr
      exact ⟨.refl s, .inl rfl⟩
    · obtain ⟨⟨s₁, o⟩, hs₁, hr⟩ := Outcomes.of_bind hr
      exact hschedule (.createObject hs₁) hr

theorem State.SameLocks.handleHeldRequests (hr : s.handleHeldRequests p = .ok s') :
    s.SameLocks s' := by
  unfold State.handleHeldRequests at hr
  split at hr
  · cases hr
    exact .refl s
  · cases hr

theorem State.SameLocks.managerActivate {m : Nat} (hr : s.managerActivate m = .ok (s', r)) :
    s.SameLocks s' := by
  unfold State.managerActivate at hr
  split at hr
  · cases hr
    exact .refl s
  · obtain ⟨s₁, hs₁, hr⟩ := Outcomes.of_bind hr
    cases hr
    refine Outcomes.foldlM_ok (P := fun s₁ => s.SameLocks s₁) ?_ ?_ hs₁
    swap
    · exact .refl s
    intro s₁ p s₂ h hr
    exact .trans h (.handleHeldRequests hr)

theorem State.SameLocks.managerSuspend {m : Nat} {state : POAManagerState}
    (hr : s.managerSuspend m state = (s', r)) : s.SameLocks s' := by
  unfold State.managerSuspend at hr
  split at hr
  · cases hr
    exact .refl s
  · cases hr
    exact .refl s

theorem LockStep.none (h : s.SameLocks s') (hp : Proper ks) : LockStep s s' ks ([] ++ ks) :=
  .of_same h hp fun _ => rfl

theorem LockStep.tasks {c : Call} (h : s.SameLocks s') (hp : Proper ks) :
    LockStep s s' ks (c.tasks ++ ks) :=
  .of_same h hp.tasks fun q => by simp [lockCount_tasks]

theorem LockStep.poaDeactivateObject {oid : Octets} (hts : w.threadSafe = true)
    (hst : Standing s ks) (hq : (w.policies p).retain = true)
    (hr : s.poaDeactivateObject w p oid = .ok (s', ls, r)) : LockStep s s' ks (ls ++ ks) := by
  unfold State.poaDeactivateObject at hr
  obtain ⟨s₁, hs₁, hr⟩ := Outcomes.of_bind hr
  rw [if_neg (by simp [hq])] at hr
  obtain ⟨hfree, hlocked, -⟩ := State.lock_locked hts hs₁
  have hk : lockCount p ks = 0 := hst.free hfree
  obtain ⟨found, -, hr⟩ := Outcomes.of_bind hr
  split at hr
  · cases hr
    exact .none (.unlock hts hs₁ (.refl s₁)) hst.proper
  · obtain ⟨s₂, hs₂, hr⟩ := Outcomes.of_bind hr
    cases hr
    refine Guarded.step_taken (.of_same hlocked (.duplicate hs₂) ⟨.inl ?_, ?_, trivial, hst.proper⟩
      ?_ fun q hq => ?_) hts hs₁ hk
    · simp [Task.lockWeight, hk]
    · show lockCount p (.release _ :: ks) = 0
      simp [Task.lockWeight, hk]
    · simp [Task.lockWeight, hk]
    · simp [Task.lockWeight, Ne.symm hq]

theorem LockStep.poaDestroy {etherealize wait : Bool} (hts : w.threadSafe = true)
    (hst : Standing s ks) (hr : s.poaDestroy w p etherealize wait = .ok (s', ls, r)) :
    LockStep s s' ks (ls ++ ks) := by
  unfold State.poaDestroy at hr
  obtain ⟨s₁, hs₁, hr⟩ := Outcomes.of_bind hr
  obtain ⟨hfree, hlocked, -⟩ := State.lock_locked hts hs₁
  have hk : lockCount p ks = 0 := hst.free hfree
  dsimp only at hr
  split at hr
  · cases hr
    exact .none (.unlock hts hs₁ (.refl s₁)) hst.proper
  · obtain ⟨-, hr⟩ := Outcomes.of_guard hr
    split at hr
    · cases hr
      exact .none (.unlock hts hs₁ (.refl s₁)) hst.proper
    · cases hr
      refine Guarded.step_taken (.of_same hlocked (.refl _) ⟨?_, trivial, hk, hst.proper⟩
        ?_ fun q hq => ?_) hts hs₁ hk
      · show lockCount p (.destroyEnd p wait :: .unlock p :: ks) = 1
        simp [Task.lockWeight, hk]
      · simp [Task.lockWeight, hk]
      · simp [Task.lockWeight, Ne.symm hq]

theorem LockStep.managerDeactivate {m : Nat} {etherealize wait : Bool} (hst : Standing s ks)
    (hr : s.managerDeactivate w m etherealize wait = .ok (s', ls, r)) :
    LockStep s s' ks (ls ++ ks) := by
  unfold State.managerDeactivate at hr
  dsimp only at hr
  split at hr
  · cases hr
    exact .none (.refl s) hst.proper
  · obtain ⟨-, hr⟩ := Outcomes.of_guard hr
    split at hr
    · cases hr
      exact .none (.refl s) hst.proper
    · cases hr
      split
      · exact .none (.refl s) hst.proper
      · refine .of_same (.refl s) ⟨trivial, hst.proper⟩ fun q => ?_
        simp [Task.lockWeight]

/-- An operation takes no lock that it does not give back, at once or by its tasks. -/
theorem LockStep.perform {op : Operation} (hts : w.threadSafe = true) (hst : Standing s ks)
    (hq : ¬ op.LeavesLocked w s) (hr : s.perform w op = .ok (s', ls, r)) :
    LockStep s s' ks (ls ++ ks) := by
  cases op <;> simp only [State.perform] at hr
  case createPOA p =>
    cases hr
    refine .none ?_ hst.proper
    unfold State.poaCreate
    split
    · exact .refl s
    · have h : s.SameLocks (s.setPoa p fun x => { x with created := true }) := .setPoa fun _ => rfl
      exact h
  case setThreadHint p hint =>
    cases hr
    exact .none (.setPoa fun _ => rfl) hst.proper
  case setServant p servant =>
    cases hr
    exact .none (.setPoa fun _ => rfl) hst.proper
  case setServantManager p =>
    split at hr
    · cases hr
      exact .none (.refl s) hst.proper
    · cases hr
      exact .none (.setPoa fun _ => rfl) hst.proper
  case activateObject p servant random =>
    obtain ⟨⟨s₁, r₁⟩, hs₁, hr⟩ := Outcomes.of_bind hr
    cases hr
    exact .none (.poaActivateObject hts hq hs₁) hst.proper
  case activateObjectWithId p oid servant =>
    obtain ⟨⟨s₁, r₁⟩, hs₁, hr⟩ := Outcomes.of_bind hr
    cases hr
    exact .none (.poaActivateObjectWithId hts (Bool.not_eq_false _ |>.mp hq) hs₁) hst.proper
  case deactivateObject p oid =>
    exact .poaDeactivateObject hts hst (Bool.not_eq_false _ |>.mp hq) hr
  case createReference p intf random =>
    obtain ⟨⟨s₁, r₁⟩, hs₁, hr⟩ := Outcomes.of_bind hr
    cases hr
    exact .none (.poaCreateReference hts (Bool.not_eq_false _ |>.mp hq) hs₁) hst.proper
  case createReferenceWithId p oid intf =>
    obtain ⟨⟨s₁, r₁⟩, hs₁, hr⟩ := Outcomes.of_bind hr
    cases hr
    exact .none (.poaCreateReferenceWithId hts hs₁) hst.proper
  case servantToId p servant random =>
    obtain ⟨⟨s₁, r₁⟩, hs₁, hr⟩ := Outcomes.of_bind hr
    cases hr
    exact .none (.poaServantToId hts hq hs₁) hst.proper
  case servantToReference p servant random =>
    obtain ⟨⟨s₁, r₁⟩, hs₁, hr⟩ := Outcomes.of_bind hr
    cases hr
    exact .none (.poaServantToReference hts hq hs₁) hst.proper
  case referenceToServant p reference =>
    obtain ⟨r₁, -, hr⟩ := Outcomes.of_bind hr
    cases hr
    exact .none (.refl s) hst.proper
  case referenceToId p reference =>
    obtain ⟨r₁, -, hr⟩ := Outcomes.of_bind hr
    cases hr
    exact .none (.refl s) hst.proper
  case idToServant p oid =>
    obtain ⟨⟨s₁, r₁⟩, hs₁, hr⟩ := Outcomes.of_bind hr
    cases hr
    exact .none (.poaIdToServant hts hq hs₁) hst.proper
  case idToReference p oid =>
    obtain ⟨⟨s₁, r₁⟩, hs₁, hr⟩ := Outcomes.of_bind hr
    cases hr
    exact .none (.poaIdToReference hts (Bool.not_eq_false _ |>.mp hq) hs₁) hst.proper
  case currentGetPOA =>
    obtain ⟨r₁, -, hr⟩ := Outcomes.of_bind hr
    cases hr
    exact .none (.refl s) hst.proper
  case currentGetObjectId =>
    obtain ⟨r₁, -, hr⟩ := Outcomes.of_bind hr
    cases hr
    exact .none (.refl s) hst.proper
  case destroy p etherealize wait => exact .poaDestroy hts hst hr
  case managerActivate m =>
    obtain ⟨⟨s₁, r₁⟩, hs₁, hr⟩ := Outcomes.of_bind hr
    cases hr
    exact .none (.managerActivate hs₁) hst.proper
  case holdRequests m =>
    cases hr
    exact .none (.managerSuspend rfl) hst.proper
  case discardRequests m =>
    cases hr
    exact .none (.managerSuspend rfl) hst.proper
  case managerDeactivate m etherealize wait => exact .managerDeactivate hst hr
  case duplicateReference o =>
    obtain ⟨s₁, hs₁, hr⟩ := Outcomes.of_bind hr
    cases hr
    exact .none (.duplicateReference hs₁) hst.proper
  case releaseReference o =>
    obtain ⟨s₁, hs₁, hr⟩ := Outcomes.of_bind hr
    cases hr
    exact .none (.releaseReference hs₁) hst.proper
  case invoke o opname =>
    obtain ⟨⟨s₁, tasks⟩, hs₁, hr⟩ := Outcomes.of_bind hr
    cases hr
    unfold State.invoke at hs₁
    obtain ⟨x, -, hs₁⟩ := Outcomes.of_bind hs₁
    obtain ⟨-, hs₁⟩ := Outcomes.of_guard hs₁
    cases hs₁
    exact .tasks (.refl s) hst.proper
  case incoming p oid opname =>
    obtain ⟨⟨s₁, tasks⟩, hs₁, hr⟩ := Outcomes.of_bind hr
    cases hr
    unfold State.incoming at hs₁
    obtain ⟨s₂, hs₂, hs₁⟩ := Outcomes.of_bind hs₁
    obtain ⟨⟨s₃, tasks⟩, hs₃, hs₁⟩ := Outcomes.of_bind hs₁
    cases hs₁
    obtain ⟨h₃, htasks⟩ := State.SameLocks.assign hs₃
    have h : s.SameLocks (s₃.unlock w p) := .unlock hts hs₂ h₃
    rcases htasks with rfl | ⟨c, rfl⟩
    · exact .none h hst.proper
    · exact .tasks h hst.proper
  case serve i =>
    split at hr
    · cases hr
      exact .none (.refl s) hst.proper
    · cases hr
      exact .tasks (.refl s) hst.proper

/-- The tasks of a thread that come behind its next one. -/
theorem State.own_of_nextTask {t : Nat} {k : Task} {rest : List (Nat × Task)}
    (h : nextTask t s.tasks = some (k, rest)) :
    s.own t = k :: (rest.filter fun u => u.1 = t).map (·.2) ∧
      ∀ u, u ≠ t → s.own u = (rest.filter fun v => v.1 = u).map (·.2) := by
  unfold State.own
  generalize s.tasks = tasks at h
  induction tasks generalizing rest with
  | nil => cases h
  | cons v tasks ih =>
    obtain ⟨v, k'⟩ := v
    unfold nextTask at h
    split at h
    · rename_i hv
      cases h
      subst hv
      exact ⟨by simp, fun u hu => by simp [Ne.symm hu]⟩
    · rename_i hv
      obtain ⟨⟨k₁, rest₁⟩, hrest, he⟩ := Option.map_eq_some_iff.mp h
      cases he
      obtain ⟨hown, hothers⟩ := ih hrest
      refine ⟨by simp [hv, hown], fun u hu => ?_⟩
      by_cases huv : v = u
      · simp [huv, hothers u hu]
      · simp [huv, hothers u hu]

theorem State.own_push (s : State) (t : Nat) (ks : List Task) (rest : List (Nat × Task)) :
    (s.push t ks rest).own t = ks ++ (rest.filter fun u => u.1 = t).map (·.2) ∧
      ∀ u, u ≠ t → (s.push t ks rest).own u = (rest.filter fun v => v.1 = u).map (·.2) := by
  refine ⟨?_, fun u hu => ?_⟩
  · simp [State.own, State.push, List.filter_map, Function.comp_def]
  · simp [State.own, State.push, List.filter_map, Function.comp_def, Ne.symm hu]

end

/-- A locked POA has exactly one thread that will unlock it. -/
structure State.LockInv (s : State) : Prop where
  proper : ∀ t, Proper (s.own t)
  locked : ∀ p, (s.poas p).locked = true ↔ ∃ t, s.Holds t p
  alone : ∀ p t u, s.Holds t p → s.Holds u p → t = u

section
variable {w : World} {s s' s₁ : State} {ks ls : List Task} {t : Nat}

theorem State.LockInv.standing (h : s.LockInv) (t : Nat) : Standing s (s.own t) where
  proper := h.proper t
  held p hp := (h.locked p).mpr ⟨t, hp⟩

/-- A step of one thread. -/
theorem State.LockInv.of_step (h : s.LockInv) (hl : LockStep s s' (s.own t) (s'.own t))
    (ho : ∀ u, u ≠ t → s'.own u = s.own u) : s'.LockInv where
  proper u := by
    by_cases hu : u = t
    · rw [hu]
      exact hl.proper
    · rw [ho u hu]
      exact h.proper u
  locked p := by
    have hothers : ∀ u, u ≠ t → (s'.Holds u p ↔ s.Holds u p) := fun u hu => by
      simp only [State.Holds, ho u hu]
    rcases hl.locks p with ⟨hsame, hcount⟩ | ⟨hfree, htaken, hcount⟩ | ⟨hheld, hgiven, hcount⟩
    · have hall : ∀ u, s'.Holds u p ↔ s.Holds u p := by
        intro u
        by_cases hu : u = t
        · simp only [hu, State.Holds, hcount]
        · exact hothers u hu
      simp only [hsame, h.locked p, hall]
    · exact iff_of_true htaken ⟨t, hcount⟩
    · refine iff_of_false (by simp [hgiven]) ?_
      rintro ⟨u, hu⟩
      by_cases hut : u = t
      · rw [hut, State.Holds, hcount] at hu
        cases hu
      · exact hut (h.alone p u t ((hothers u hut).mp hu) hheld)
  alone p u v hu hv := by
    have hothers : ∀ u, u ≠ t → s'.Holds u p → s.Holds u p := fun u hu h => by
      simpa only [State.Holds, ho u hu] using h
    rcases hl.locks p with ⟨hsame, hcount⟩ | ⟨hfree, htaken, hcount⟩ | ⟨hheld, hgiven, hcount⟩
    · have hall : ∀ u, s'.Holds u p → s.Holds u p := by
        intro u h
        by_cases hu : u = t
        · rw [hu] at h ⊢
          simpa only [State.Holds, hcount] using h
        · exact hothers u hu h
      exact h.alone p u v (hall u hu) (hall v hv)
    · have hnone : ∀ u, u ≠ t → ¬ s'.Holds u p := by
        intro u hu h'
        have := (h.locked p).mpr ⟨u, hothers u hu h'⟩
        rw [hfree] at this
        cases this
      have hut : u = t := by
        by_contra hut
        exact hnone u hut hu
      have hvt : v = t := by
        by_contra hvt
        exact hnone v hvt hv
      rw [hut, hvt]
    · have hnone : ∀ u, ¬ s'.Holds u p := by
        intro u hu
        by_cases hut : u = t
        · rw [hut, State.Holds, hcount] at hu
          cases hu
        · exact hut (h.alone p u t (hothers u hut hu) hheld)
      exact absurd hu (hnone u)

theorem State.LockInv.push {rest : List (Nat × Task)} (h : s.LockInv)
    (hl : LockStep s s' (s.own t) (ls ++ (rest.filter fun u => u.1 = t).map (·.2)))
    (ho : ∀ u, u ≠ t → s.own u = (rest.filter fun v => v.1 = u).map (·.2)) :
    (s'.push t ls rest).LockInv := by
  obtain ⟨hown, hothers⟩ := State.own_push s' t ls rest
  refine h.of_step (t := t) ?_ fun u hu => (hothers u hu).trans (ho u hu).symm
  rw [hown]
  exact ⟨hl.proper, hl.locks⟩

end

/-- The locks an operation takes first. -/
def Operation.awaits (w : World) (s : State) : Operation → List Nat
  | .servantToId p servant _ | .servantToReference p servant _ => if servant = none then [] else [p]
  | .activateObject p _ _ | .activateObjectWithId p _ _ | .deactivateObject p _
  | .createReference p _ _ | .createReferenceWithId p _ _ | .idToServant p _ | .idToReference p _
  | .incoming p _ _ => [p]
  | .destroy p _ wait => p :: if wait then s.below w s.adaptors.length p else []
  | .managerDeactivate m _ wait => if wait then (s.managers m).poaCollection else []
  | _ => []

/-- The locks a task takes first, when it goes on. -/
def Task.awaits (s : State) : Task → List Nat
  | .request c | .method c _ => [c.poa]
  | .finalize p _ _ _ => [p]
  | .destroyChildren p _ i =>
      match s.adaptors[i]? with
      | some c => if (s.poas c).life.destroyed ∨ c = p then [] else [c]
      | none => [p]
  | _ => []

def Event.thread : Event → Nat
  | .call t _ | .run t | .answer t _ => t

/-- The locks an event takes first. -/
def State.awaits (w : World) (s : State) : Event → List Nat
  | .call _ op => op.awaits w s
  | .run t | .answer t _ =>
      match nextTask t s.tasks with
      | some (k, _) => k.awaits s
      | none => []

/-- Every lock that is taken will be given back, by the one thread that has it. -/
structure State.LockDiscipline (w : World) (s : State) : Prop where
  locked : w.threadSafe = true → ∀ p, (s.poas p).locked = true ↔ ∃ t, s.Holds t p
  alone : w.threadSafe = true → ∀ p t u, s.Holds t p → s.Holds u p → t = u

/-- Who has to wait for a lock waits for another thread. -/
def State.WaitsForOthers (w : World) (s : State) (e : Event) : Prop :=
  w.threadSafe = true → ∀ p ∈ s.awaits w e, (s.poas p).locked = true →
    ∃ u, u ≠ e.thread ∧ s.Holds u p

/-- A task does not call a finalizer for `POAManager_deactivate`, where it would drop a lock that
nobody took, and keep it afterwards. -/
def State.Keeps (w : World) (s : State) (t : Nat) : Task → Prop
  | .deactivateObject p o etherealize cleanup => s.Holds t p ∨
      ∀ x ∈ s.objects o, ∀ servant ∈ x.servant, x.useCnt = 0 →
        ¬ POAObject.Finalizes w { x with life := x.life.ask etherealize cleanup } servant
  | .etherealize p _ servant => s.Holds t p ∨ (w.classInfo servant).finalizes = false
  | _ => True

instance (w : World) (s : State) (t : Nat) (k : Task) : Decidable (s.Keeps w t k) := by
  unfold State.Keeps; induction k using Task.casesOn <;> infer_instance

/-- No operation leaves through its policies, no function of the application that runs under a
lock wants that lock again, and no finalizer runs for `POAManager_deactivate`. -/
def State.CarefulLocks (w : World) (s : State) (e : Event) : Prop :=
  (∀ p ∈ s.awaits w e, ¬ s.Holds e.thread p) ∧
    match e with
    | .call _ op => ¬ op.LeavesLocked w s
    | .run t | .answer t _ => ∀ k ∈ (nextTask t s.tasks).map (·.1), s.Keeps w t k

instance (w : World) (s : State) (e : Event) : Decidable (s.CarefulLocks w e) := by
  unfold State.CarefulLocks; induction e using Event.casesOn <;> infer_instance

section
variable {w : World} {s s' s₁ : State} {ks ls : List Task} {t : Nat}

theorem LockStep.runTask {k : Task} (hts : w.threadSafe = true) (hst : Standing s (k :: ks))
    (hown : s.own t = k :: ks) (hwait : k.waits = false) (hq : s.Keeps w t k)
    (hr : s.runTask w k = .ok (s', ls)) : LockStep s s' (k :: ks) (ls ++ ks) := by
  cases k <;> simp only [State.runTask] at hr
  case deactivateObject p o etherealize cleanup =>
    refine .deactivateObject hts hst ?_ hr
    refine hq.imp_left fun h => ?_
    rw [State.Holds, hown] at h
    simpa [Task.lockWeight] using h
  case release o =>
    obtain ⟨s₁, hs₁, hr⟩ := Outcomes.of_bind hr
    cases hr
    exact .of_same (.release hs₁) hst.proper.2 fun q => by simp [Task.lockWeight]
  case unlock p =>
    cases hr
    exact .unlock hts hst
  case request c => exact .handleRequest hts hst hr
  case endUse c => exact .endUse hts hst hr
  case deactivate p etherealize caller => exact .deactivate hst hr
  case traverse p rest inUse etherealize caller => exact .traverse hst hr
  case destroy p etherealize => exact .destroy hts hst (Except.ok.inj hr)
  case destroyChildren p etherealize i => exact .destroyChildren hts hst hr
  case destroyEnd p wait =>
    obtain ⟨-, hr⟩ := Outcomes.of_guard hr
    cases hr
    exact .of_same (.refl s) hst.proper.2 fun q => by simp [Task.lockWeight]
  all_goals cases hwait

theorem LockStep.resumeTask {k : Task} {r : Reply} (hts : w.threadSafe = true)
    (hst : Standing s (k :: ks)) (hown : s.own t = k :: ks) (hwait : k.waits = true)
    (hq : s.Keeps w t k) (hr : s.resumeTask w r k = .ok (s', ls)) :
    LockStep s s' (k :: ks) (ls ++ ks) := by
  cases k <;> simp only [State.resumeTask] at hr
  case etherealize p o servant =>
    refine .callFinalize hts hst ?_ hr
    refine hq.imp_left fun h => ?_
    rw [State.Holds, hown] at h
    simpa [Task.lockWeight] using h
  case finalize p o servant raised =>
    obtain ⟨s₁, hs₁, hr⟩ := Outcomes.of_bind hr
    cases hr
    exact .finalized hts hst hs₁
  case incarnate c => exact .incarnated hts hst hr
  case preinvoke c => exact .preinvoked hts hst hr
  case method c cookie => exact .returned hts hst hr
  case postinvoke c cookie servant =>
    cases hr
    exact .of_same (.refl s) hst.proper.2 fun q => by simp [Task.lockWeight]
  all_goals cases hwait

theorem State.LockInv.execute {e : Event} (h : s.LockInv) (hts : w.threadSafe = true)
    (hc : s.CarefulLocks w e) (hr : s.execute w e = .ok s') : s'.LockInv := by
  obtain ⟨-, hc⟩ := hc
  unfold State.execute at hr
  cases e with
  | call t op =>
    dsimp only at hr
    split at hr
    · obtain ⟨⟨s₁, tasks, r⟩, hs₁, hr⟩ := Outcomes.of_bind hr
      cases hr
      exact h.push (.perform hts (h.standing t) hc hs₁) fun _ _ => rfl
    · cases hr
      exact h
  | run t =>
    dsimp only at hr
    cases hnext : nextTask t s.tasks with
    | none =>
      rw [hnext] at hr
      cases hr
      exact h
    | some next =>
      obtain ⟨k, rest⟩ := next
      rw [hnext] at hr
      dsimp only at hr
      obtain ⟨hown, hothers⟩ := State.own_of_nextTask hnext
      split at hr
      · cases hr
        exact h
      · rename_i hwait
        obtain ⟨⟨s₁, tasks⟩, hs₁, hr⟩ := Outcomes.of_bind hr
        cases hr
        have hst := h.standing t
        rw [hown] at hst
        refine h.push ?_ hothers
        rw [hown]
        exact .runTask hts hst hown (by simpa using hwait) (hc k (by simp [hnext])) hs₁
  | answer t reply =>
    dsimp only at hr
    cases hnext : nextTask t s.tasks with
    | none =>
      rw [hnext] at hr
      cases hr
      exact h
    | some next =>
      obtain ⟨k, rest⟩ := next
      rw [hnext] at hr
      dsimp only at hr
      obtain ⟨hown, hothers⟩ := State.own_of_nextTask hnext
      split at hr
      · rename_i hwait
        obtain ⟨⟨s₁, tasks⟩, hs₁, hr⟩ := Outcomes.of_bind hr
        cases hr
        have hst := h.standing t
        rw [hown] at hst
        refine h.push ?_ hothers
        rw [hown]
        exact .resumeTask hts hst hown hwait (hc k (by simp [hnext])) hs₁
      · cases hr
        exact h

theorem State.LockInv.step {e : Event} (h : s.LockInv) (hts : w.threadSafe = true)
    (hc : s.CarefulLocks w e) : (s.step w e).LockInv := by
  unfold State.step
  split
  · exact h
  · split
    · rename_i s' hs'
      exact h.execute hts hc hs'
    · exact h
    · exact ⟨h.proper, h.locked, h.alone⟩

theorem State.lockInv_init : State.init.LockInv where
  proper _ := trivial
  locked p := by
    refine iff_of_false (by simp [State.init, POA.init]) ?_
    rintro ⟨t, ht⟩
    cases ht
  alone _ _ _ ht := by cases ht

end

/-- In a process with threads, a POA with a servant activator and below it one that retains no
servants. -/
def threadedWorld : World where
  threadSafe := true
  threadIo := true
  endian := .little
  policies := fun p => if p = 0 then ⟨false, true, true, false, true, .servantManager⟩
    else ⟨false, false, true, false, false, .defaultServant⟩
  manager := fun _ => 0
  parent := fun p => if p = 0 then none else some 0
  classInfo := fun _ => ⟨[], fun _ => true, fun _ => false, true⟩

/-- While `incarnate` runs in one thread, another one has to wait with an activation; later the
POA is destroyed. -/
def activatedByTwoThreads : List Event :=
  [.call 0 (.createPOA 0), .call 0 (.createPOA 1), .call 0 (.setServantManager 0),
    .call 0 (.managerActivate 0), .call 0 (.incoming 0 [9, 0, 0, 0, 1, 2, 3, 4] 3),
    .call 1 (.serve 0), .run 1, .call 2 (.activateObject 0 8 [1, 2, 3, 4]),
    .answer 1 ⟨some 7, 0, false⟩, .call 1 (.idToReference 0 [9, 0, 0, 0, 1, 2, 3, 4]),
    .answer 1 ⟨none, 0, false⟩, .run 1, .run 1, .call 2 (.activateObject 0 8 [1, 2, 3, 4]),
    .call 0 (.destroy 0 true false)] ++ List.replicate 14 (.run 0) ++
    [.answer 0 ⟨none, 0, false⟩, .answer 0 ⟨none, 0, false⟩]

/-- The application activates an object where no servants are retained, and is told that this is
the wrong policy. -/
def activatedWithoutRetain : List Event :=
  [.call 0 (.createPOA 0), .call 0 (.createPOA 1), .call 0 (.activateObject 1 7 [1, 2, 3, 4])]

end ORBit2.PortableServer
