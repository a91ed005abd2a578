import ORBit2.PoaPreservation

/-! The invariant of objects, servants and maps along the runs of the POAs. -/

set_option autoImplicit false

namespace ORBit2.PortableServer

section
variable {w : World} {past : Past} {s s' : State} {ts ks : List Task} {o p : Nat}
variable {x : POAObject}

/-- The tasks that come with an operation or a piece of work do not use an object. -/
theorem Kept.add (h : Kept w past s ts) (hr : ∀ o, requestUses o ks = 0)
    (hf : ∀ o, finalUses o ks = 0) : Kept w past s (ks ++ ts) := by
  refine h.tasks (fun o => ?_) (fun o => ?_)
  · rw [requestUses_append, hr, Nat.zero_add]
  · rw [finalUses_append, hf, Nat.zero_add]

theorem Call.requestUses_tasks (c : Call) (o : Nat) : requestUses o c.tasks = 0 := by
  unfold Call.tasks
  split <;> rfl

theorem Call.finalUses_tasks (c : Call) (o : Nat) : finalUses o c.tasks = 0 := by
  unfold Call.tasks
  split <;> rfl

theorem Kept.setLife {f : PoaLife → PoaLife} (h : Kept w past s ts) :
    Kept w past (s.setLife p f) ts :=
  h.setPoa (fun _ => rfl) (fun _ => rfl)

/-- A request runs here, or is put in the queue of another thread. -/
theorem State.schedule_ok {c : Call} {t : State × List Task} (hr : s.schedule w p c = .ok t) :
    t = (s, c.tasks) ∨ t = ({ s with queue := s.queue ++ [c] }, []) := by
  have hchoice : ∀ b : Bool, (if b then ({ s with queue := s.queue ++ [c] }, [])
      else (s, c.tasks)) = t → t = (s, c.tasks) ∨ t = ({ s with queue := s.queue ++ [c] }, []) := by
    rintro b rfl
    cases b with
    | false => exact .inl rfl
    | true => exact .inr rfl
  have hpool : (if w.threadIo then Except.ok ({ s with queue := s.queue ++ [c] }, [])
      else Except.error Stop.assertion) = Except.ok t →
        t = ({ s with queue := s.queue ++ [c] }, []) := by
    intro hb
    split at hb
    · exact (Except.ok.inj hb).symm
    · cases hb
  unfold State.schedule at hr
  dsimp only at hr
  split at hr
  · exact hchoice w.threadIo (Except.ok.inj hr)
  · split at hr
    · exact hchoice w.threadIo (Except.ok.inj hr)
    · exact .inr (hpool hr)
    · exact .inr (hpool hr)
    · exact .inr (hpool hr)
    · exact .inr (hpool hr)
    · obtain ⟨b, -, hr⟩ := Outcomes.of_bind hr
      exact .inr (Except.ok.inj hr).symm
    · exact .inr (Except.ok.inj hr).symm
    · exact .inr (Except.ok.inj hr).symm

theorem Kept.schedule {c : Call} (h : Kept w past s ts)
    (hr : s.schedule w p c = .ok (s', ks)) : Kept w past s' (ks ++ ts) := by
  rcases State.schedule_ok hr with he | he
  · cases he
    exact h.add c.requestUses_tasks c.finalUses_tasks
  · cases he
    exact h.congr rfl rfl rfl fun _ => ⟨rfl, rfl⟩

theorem Kept.assign {oid : Octets} {opname : Nat} (h : Kept w past s ts) (hcur : past.Current ts)
    (hc : (s.poas p).created = true) (hr : s.assign w p oid opname = .ok (s', ks)) :
    Kept w past s' (ks ++ ts) := by
  unfold State.assign at hr
  obtain ⟨found, hfound, hr⟩ := Outcomes.of_bind hr
  cases found with
  | some o =>
    obtain ⟨s₁, hs₁, hr⟩ := Outcomes.of_bind hr
    exact (h.duplicate hs₁).schedule hr
  | none =>
    dsimp only at hr
    split at hr
    · cases hr
      exact h
    · obtain ⟨⟨s₁, o⟩, hs₁, hr⟩ := Outcomes.of_bind hr
      have hf : s.Unused p ((some oid).getD (s.newSystemObjid w p [])) :=
        State.unused_of_lookup hfound
      exact (h.createObject hc hf hcur hs₁).1.schedule hr

theorem Kept.incoming {oid : Octets} {opname : Nat} (h : Kept w past s ts)
    (hcur : past.Current ts) (hc : (s.poas p).created = true)
    (hr : s.incoming w p oid opname = .ok (s', ks)) : Kept w past s' (ks ++ ts) := by
  unfold State.incoming at hr
  obtain ⟨s₁, hs₁, hr⟩ := Outcomes.of_bind hr
  obtain ⟨⟨s₂, tasks⟩, hs₂, hr⟩ := Outcomes.of_bind hr
  cases hr
  have hc₁ : (s₁.poas p).created = true := (State.lock_created hs₁ p).trans hc
  have h₂ := (h.lock hs₁).assign hcur hc₁ hs₂
  exact h₂.unlock.congr rfl rfl rfl fun _ => ⟨rfl, rfl⟩

theorem Kept.invoke {opname : Nat} (h : Kept w past s ts)
    (hr : s.invoke o opname = .ok (s', ks)) : Kept w past s' (ks ++ ts) := by
  unfold State.invoke at hr
  obtain ⟨x, -, hr⟩ := Outcomes.of_bind hr
  obtain ⟨-, hr⟩ := Outcomes.of_guard hr
  cases hr
  have h' : Kept w past { s with nextCall := s.nextCall + 1 } ts :=
    h.congr rfl rfl rfl fun _ => ⟨rfl, rfl⟩
  exact h'.add (Call.requestUses_tasks _) (Call.finalUses_tasks _)

theorem Kept.afterDeactivate {done : Bool} {caller : Deactivator} (h : Kept w past s ts)
    (hr : s.afterDeactivate w p done caller = .ok (s', ks)) : Kept w past s' (ks ++ ts) := by
  unfold State.afterDeactivate at hr
  split at hr
  · cases hr
    split
    · exact h
    · exact h.add (fun _ => rfl) (fun _ => rfl)
  · split at hr
    · cases hr
      have h' : Kept w past (s.setLife p fun l => { l with destroyed := true, destroying := false })
        ts := h.setLife
      exact h'.congr rfl rfl rfl fun _ => ⟨rfl, rfl⟩
    · cases hr
      exact h.setLife

theorem Kept.deactivate {etherealize : Bool} {caller : Deactivator} (h : Kept w past s ts)
    (hr : s.deactivate w p etherealize caller = .ok (s', ks)) : Kept w past s' (ks ++ ts) := by
  unfold State.deactivate at hr
  dsimp only at hr
  split at hr
  · exact h.setLife.afterDeactivate hr
  · split at hr
    · exact h.setLife.afterDeactivate hr
    · obtain ⟨s₁, hs₁, hr⟩ := Outcomes.of_bind hr
      unfold State.handleHeldRequests at hs₁
      split at hs₁
      · cases hs₁
        cases hr
        exact h.setLife.setLife.add (fun _ => rfl) (fun _ => rfl)
      · cases hs₁

/-- Nothing is removed while the keys are there. -/
theorem Kept.removeCb (h : Kept w past s ts) : Kept w past (s.removeCb p) ts := by
  have hgone : ∀ o, (s.objects o).any (fun x => x.life.destroyed) = false := by
    intro o
    cases hx : s.objects o with
    | none => rfl
    | some x => exact (h.live o x hx).2
  unfold State.removeCb
  simp only [hgone, Bool.not_false, List.filter_true, Bool.false_eq_true, false_and, if_false]
  refine h.congr rfl rfl rfl fun q => ?_
  rw [State.setPoa_poas]
  split <;> exact ⟨rfl, rfl⟩

theorem Kept.traverse {rest : List Nat} {inUse etherealize : Bool} {caller : Deactivator}
    (h : Kept w past s ts) (hr : s.traverse w p rest inUse etherealize caller = .ok (s', ks)) :
    Kept w past s' (ks ++ ts) := by
  cases rest with
  | nil =>
    unfold State.traverse at hr
    have h' : Kept w past (if (w.policies p).retain then s.removeCb p else s) ts := by
      split
      · exact h.removeCb
      · exact h
    exact h'.setLife.afterDeactivate hr
  | cons o rest =>
    unfold State.traverse at hr
    obtain ⟨x, -, hr⟩ := Outcomes.of_bind hr
    cases hr
    exact h.add (fun _ => rfl) (fun _ => rfl)

theorem Kept.destroy {etherealize : Bool} (h : Kept w past s ts)
    (hr : s.destroy w p etherealize = (s', ks)) : Kept w past s' (ks ++ ts) := by
  unfold State.destroy at hr
  dsimp only at hr
  split at hr
  · cases hr
    exact h.setLife
  · cases hr
    exact h.setLife.setLife.unlock.add (fun _ => rfl) (fun _ => rfl)

theorem Kept.destroyChildren {etherealize : Bool} {i : Nat} (h : Kept w past s ts)
    (hr : s.destroyChildren w p etherealize i = .ok (s', ks)) : Kept w past s' (ks ++ ts) := by
  unfold State.destroyChildren at hr
  split at hr
  · dsimp only at hr
    split at hr
    · cases hr
      exact h.add (fun _ => rfl) (fun _ => rfl)
    · obtain ⟨locked, hlocked, hr⟩ := Outcomes.of_bind hr
      split at hr
      · cases hr
        exact (h.lock hlocked).add (fun _ => rfl) (fun _ => rfl)
      · cases hr
        exact h.add (fun _ => rfl) (fun _ => rfl)
  · obtain ⟨s₁, hs₁, hr⟩ := Outcomes.of_bind hr
    have h₁ : Kept w past (s₁.setPoa p fun x => { x with defaultServant := none }) ts :=
      (h.lock hs₁).setPoa (fun _ => rfl) (fun _ => rfl)
    dsimp only at hr
    split at hr
    · cases hr
      exact h₁.setLife
    · cases hr
      exact h₁.add (fun _ => rfl) (fun _ => rfl)

/-- An object that is made and activated in one go. -/
theorem Kept.createActive {objid : Option Octets} {random : Octets} {servant : Nat} {s₁ : State}
    (h : Kept w past s ts) (hcur : past.Current ts) (hc : (s.poas p).created = true)
    (hf : s.Unused p (objid.getD (s.newSystemObjid w p random)))
    (hun : (w.policies p).uniqueId = true → s.privates servant = [])
    (hs₁ : s.createObject w p objid random = .ok (s₁, o))
    (hr : s₁.activateObject w p o servant = .ok s') : Kept w past s' ts := by
  obtain ⟨h₁, hpriv, oid, hx⟩ := h.createObject hc hf hcur hs₁
  refine h₁.activateObject ?_ hcur hr
  intro x hxo hu sv hsv
  cases hsv
  cases hx.symm.trans hxo
  rw [hpriv]
  exact hun hu

theorem State.Unused.lock {oid : Octets} (hf : s.Unused p oid) (hl : s.lock w p = .ok s') :
    s'.Unused p oid := by
  intro e he
  unfold State.key
  rw [State.lock_objects hl]
  exact hf e (State.lock_map hl p ▸ he)

/-- The next system id is not that of an object. -/
def State.Fresh (w : World) (s : State) (p : Nat) (random : Octets) : Prop :=
  s.Unused p (s.newSystemObjid w p random)

instance (w : World) (s : State) (p : Nat) (random : Octets) : Decidable (s.Fresh w p random) := by
  unfold State.Fresh; infer_instance

theorem State.Fresh.unused {random : Octets} (hf : s.Fresh w p random) :
    s.Unused p (Option.getD none (s.newSystemObjid w p random)) := hf

theorem State.Fresh.lock {random : Octets} (hf : s.Fresh w p random)
    (hl : s.lock w p = .ok s') : s'.Fresh w p random := by
  unfold State.Fresh State.newSystemObjid at hf ⊢
  rw [State.lock_nextSysid hl]
  exact hf.lock hl

/-- An object with this id has a reference that can be lent while the POA walks over its map. -/
def State.Lendable (s : State) (p : Nat) (oid : Octets) : Prop :=
  match s.objectIdLookup p oid with
  | .ok (some o) => ∀ x ∈ s.objects o, s.Droppable { x with refs := x.refs + 1 }
  | _ => True

instance (s : State) (p : Nat) (oid : Octets) : Decidable (s.Lendable p oid) := by
  unfold State.Lendable; split <;> infer_instance

theorem State.Lendable.lock {oid : Octets} (hd : s.Lendable p oid) (hl : s.lock w p = .ok s') :
    s'.Lendable p oid := by
  have hlook : s'.objectIdLookup p oid = s.objectIdLookup p oid := by
    unfold State.objectIdLookup State.key
    rw [State.lock_objects hl, State.lock_map hl]
  unfold State.Lendable at hd ⊢
  rw [hlook]
  split
  · rename_i o ho
    rw [ho] at hd
    intro x hx
    rw [State.lock_objects hl] at hx
    exact (hd x hx).lock hl
  · trivial

/-- The object found gets a reference, which it can lose again. -/
theorem State.Lendable.duplicate {oid : Octets} (hd : s.Lendable p oid)
    (hl : s.objectIdLookup p oid = .ok (some o)) (hr : s.duplicate o = .ok s') :
    ∃ x, s.objects o = some x ∧ s' = s.setObject o { x with refs := x.refs + 1 } ∧
      s'.Droppable { x with refs := x.refs + 1 } := by
  unfold State.Lendable at hd
  rw [hl] at hd
  unfold State.duplicate at hr
  obtain ⟨x, hx, hr⟩ := Outcomes.of_bind hr
  have hx := State.object_ok hx
  cases hr
  exact ⟨x, hx, rfl, hd x hx⟩

theorem Kept.poaActivateObject {servant : Nat} {random : Octets} {r : Result}
    (h : Kept w past s ts) (hcur : past.Current ts) (hc : (s.poas p).created = true)
    (hf : s.Fresh w p random) (hr : s.poaActivateObject w p servant random = .ok (s', r)) :
    Kept w past s' ts := by
  unfold State.poaActivateObject at hr
  obtain ⟨s₁, hs₁, hr⟩ := Outcomes.of_bind hr
  have h₁ := h.lock hs₁
  split at hr
  · cases hr
    exact h₁
  · split at hr
    · cases hr
      exact h₁
    · rename_i hun
      obtain ⟨⟨s₂, o⟩, hs₂, hr⟩ := Outcomes.of_bind hr
      obtain ⟨s₃, hs₃, hr⟩ := Outcomes.of_bind hr
      cases hr
      refine (h₁.createActive hcur ((State.lock_created hs₁ p).trans hc) (hf.lock hs₁).unused ?_ hs₂
        hs₃).unlock
      intro hu
      by_contra hne
      exact hun ⟨hu, hne⟩

theorem Kept.poaActivateObjectWithId {oid : Octets} {servant : Nat} {r : Result}
    (h : Kept w past s ts) (hcur : past.Current ts) (hc : (s.poas p).created = true)
    (hd : s.Lendable p oid) (hr : s.poaActivateObjectWithId w p oid servant = .ok (s', r)) :
    Kept w past s' ts := by
  unfold State.poaActivateObjectWithId at hr
  obtain ⟨s₁, hs₁, hr⟩ := Outcomes.of_bind hr
  have h₁ := h.lock hs₁
  have hd₁ := hd.lock hs₁
  split at hr
  · cases hr
    exact h₁
  · obtain ⟨found, hfound, hr⟩ := Outcomes.of_bind hr
    cases found with
    | none =>
      dsimp only at hr
      split at hr
      · cases hr
        exact h₁.unlock
      · rename_i hun
        obtain ⟨⟨s₂, o⟩, hs₂, hr⟩ := Outcomes.of_bind hr
        obtain ⟨s₃, hs₃, hr⟩ := Outcomes.of_bind hr
        cases hr
        have hf : s₁.Unused p ((some oid).getD (s₁.newSystemObjid w p [])) :=
          State.unused_of_lookup hfound
        refine (h₁.createActive hcur ((State.lock_created hs₁ p).trans hc) hf ?_ hs₂ hs₃).unlock
        intro hu
        by_contra hne
        exact hun ⟨hu, hne⟩
    | some o =>
      obtain ⟨s₂, hs₂, hr⟩ := Outcomes.of_bind hr
      have h₂ := h₁.duplicate hs₂
      obtain ⟨x, hx, hxp, -⟩ := h₁.lookup hfound
      obtain ⟨y, hy, rfl, hdrop⟩ := hd₁.duplicate hfound hs₂
      cases hx.symm.trans hy
      obtain ⟨z, hz, hr⟩ := Outcomes.of_bind hr
      have hdrop₂ : ∀ z ∈ (s₁.setObject o { x with refs := x.refs + 1 }).objects o,
          (s₁.setObject o { x with refs := x.refs + 1 }).Droppable z :=
        fun z hz => State.of_mem_setObject hz hdrop
      split at hr
      · obtain ⟨s₃, hs₃, hr⟩ := Outcomes.of_bind hr
        cases hr
        exact (h₂.release hdrop₂ hs₃).unlock
      · split at hr
        · obtain ⟨s₃, hs₃, hr⟩ := Outcomes.of_bind hr
          cases hr
          exact (h₂.release hdrop₂ hs₃).unlock
        · rename_i hun
          obtain ⟨s₃, hs₃, hr⟩ := Outcomes.of_bind hr
          obtain ⟨s₄, hs₄, hr⟩ := Outcomes.of_bind hr
          cases hr
          have h₃ : Kept w past s₃ ts := by
            refine h₂.activateObject ?_ hcur hs₃
            intro v hv hu sv hsv
            cases hsv
            have hvp : v.poa = p := State.of_mem_setObject (P := fun v => v.poa = p) hv hxp
            by_contra hne
            exact hun ⟨hvp ▸ hu, hne⟩
          obtain ⟨v, sv, hv, -, -, -, rfl⟩ := State.activateObject_ok hs₃
          have hv : v = { x with refs := x.refs + 1 } := by simpa using hv.symm
          subst hv
          refine (h₃.release (fun u hu => State.of_mem_setObject hu fun hde => ?_) hs₄).unlock
          have := hdrop hde
          dsimp only at this ⊢
          omega

theorem Kept.poaDeactivateObject {oid : Octets} {r : Result} (h : Kept w past s ts)
    (hr : s.poaDeactivateObject w p oid = .ok (s', ks, r)) : Kept w past s' (ks ++ ts) := by
  unfold State.poaDeactivateObject at hr
  obtain ⟨s₁, hs₁, hr⟩ := Outcomes.of_bind hr
  have h₁ := h.lock hs₁
  split at hr
  · cases hr
    exact h₁
  · obtain ⟨found, -, hr⟩ := Outcomes.of_bind hr
    cases found with
    | none =>
      cases hr
      exact h₁.unlock
    | some o =>
      obtain ⟨s₂, hs₂, hr⟩ := Outcomes.of_bind hr
      cases hr
      exact (h₁.duplicate hs₂).add (fun _ => rfl) (fun _ => rfl)

theorem Kept.poaCreateReference {intf : Bool} {random : Octets} {r : Result}
    (h : Kept w past s ts) (hcur : past.Current ts) (hc : (s.poas p).created = true)
    (hf : s.Fresh w p random) (hr : s.poaCreateReference w p intf random = .ok (s', r)) :
    Kept w past s' ts := by
  unfold State.poaCreateReference at hr
  obtain ⟨s₁, hs₁, hr⟩ := Outcomes.of_bind hr
  have h₁ := h.lock hs₁
  split at hr
  · cases hr
    exact h₁
  · obtain ⟨⟨s₂, o⟩, hs₂, hr⟩ := Outcomes.of_bind hr
    obtain ⟨s₃, hs₃, hr⟩ := Outcomes.of_bind hr
    cases hr
    have h₂ := h₁.createObject ((State.lock_created hs₁ p).trans hc) (hf.lock hs₁).unused hcur hs₂
    exact (h₂.1.objToRef hs₃).unlock

theorem Kept.poaCreateReferenceWithId {oid : Octets} {intf : Bool} {r : Result}
    (h : Kept w past s ts) (hr : s.poaCreateReferenceWithId w p oid intf = .ok (s', r)) :
    Kept w past s' ts := by
  unfold State.poaCreateReferenceWithId at hr
  obtain ⟨s₁, hs₁, hr⟩ := Outcomes.of_bind hr
  have h₁ := h.lock hs₁
  obtain ⟨found, -, hr⟩ := Outcomes.of_bind hr
  cases found with
  | none =>
    obtain ⟨s₂, -, hr⟩ := Outcomes.of_bind hr
    cases hr
  | some o =>
    obtain ⟨s₂, hs₂, hr⟩ := Outcomes.of_bind hr
    obtain ⟨s₃, hs₃, hr⟩ := Outcomes.of_bind hr
    obtain ⟨s₄, hs₄, hr⟩ := Outcomes.of_bind hr
    cases hr
    have h₂ := h₁.duplicate hs₂
    refine ((h₂.objToRef hs₃).release ?_ hs₄).unlock
    unfold State.duplicate at hs₂
    obtain ⟨x, -, hs₂⟩ := Outcomes.of_bind hs₂
    cases hs₂
    unfold State.objToRef at hs₃
    rw [State.object_setObject, Outcomes.ok_bind] at hs₃
    obtain ⟨-, hs₃⟩ := Outcomes.of_guard hs₃
    cases hs₃
    exact fun y hy => State.of_mem_setObject hy fun _ => by simp

theorem Kept.activateImplicitly {servant : Nat} {random : Octets} (h : Kept w past s ts)
    (hcur : past.Current ts) (hc : (s.poas p).created = true) (hf : s.Fresh w p random)
    (hun : (w.policies p).uniqueId = true → s.privates servant = [])
    (hr : s.activateImplicitly w p servant random = .ok (s', o)) : Kept w past s' ts := by
  unfold State.activateImplicitly at hr
  obtain ⟨⟨s₁, o₁⟩, hs₁, hr⟩ := Outcomes.of_bind hr
  obtain ⟨s₂, hs₂, hr⟩ := Outcomes.of_bind hr
  cases hr
  exact h.createActive hcur hc hf.unused hun hs₁ hs₂

theorem Kept.servantId {servant : Nat} {random : Octets} {oid : Option Octets}
    (h : Kept w past s ts) (hcur : past.Current ts) (hc : (s.poas p).created = true)
    (hf : (w.policies p).implicitActivation = true → s.Fresh w p random)
    (hr : s.servantId w p servant random = .ok (s', oid)) : Kept w past s' ts := by
  unfold State.servantId at hr
  dsimp only at hr
  obtain ⟨found, -, hr⟩ := Outcomes.of_bind hr
  cases found with
  | some o =>
    cases hr
    exact h
  | none =>
    dsimp only at hr
    split at hr
    · rename_i hg
      obtain ⟨⟨s₁, o⟩, hs₁, hr⟩ := Outcomes.of_bind hr
      cases hr
      refine h.activateImplicitly hcur hc (hf hg.2.1) (fun hu => ?_) hs₁
      simpa [hu] using hg.2.2
    · obtain ⟨oid', -, hr⟩ := Outcomes.of_bind hr
      cases hr
      exact h

theorem Kept.poaServantToId {servant : Option Nat} {random : Octets} {r : Result}
    (h : Kept w past s ts) (hcur : past.Current ts) (hc : (s.poas p).created = true)
    (hf : (w.policies p).implicitActivation = true → s.Fresh w p random)
    (hr : s.poaServantToId w p servant random = .ok (s', r)) : Kept w past s' ts := by
  unfold State.poaServantToId at hr
  dsimp only at hr
  cases servant with
  | none => cases hr
  | some servant =>
    obtain ⟨s₁, hs₁, hr⟩ := Outcomes.of_bind hr
    have h₁ := h.lock hs₁
    split at hr
    · cases hr
      exact h₁
    · obtain ⟨⟨s₂, oid⟩, hs₂, hr⟩ := Outcomes.of_bind hr
      cases hr
      exact (h₁.servantId hcur ((State.lock_created hs₁ p).trans hc) (fun hi => (hf hi).lock hs₁)
        hs₂).unlock

theorem Kept.referenceFor (h : Kept w past s ts) (hr : s.referenceFor o = .ok s') :
    Kept w past s' ts := by
  unfold State.referenceFor at hr
  obtain ⟨x, -, hr⟩ := Outcomes.of_bind hr
  split at hr
  · exact h.duplicateReference hr
  · exact h.objToRef hr

theorem Kept.invocationStackLookupObjref {servant : Nat} {found : Option Nat}
    (h : Kept w past s ts) (hr : s.invocationStackLookupObjref servant = .ok (s', found)) :
    Kept w past s' ts := by
  unfold State.invocationStackLookupObjref at hr
  refine Outcomes.foldlM_ok (P := fun f : State × Option Nat => Kept w past f.1 ts) ?_ h hr
  intro f o f' hf hstep
  obtain ⟨x, -, hstep⟩ := Outcomes.of_bind hstep
  split at hstep
  · obtain ⟨s₁, hs₁, hstep⟩ := Outcomes.of_bind hstep
    cases hstep
    exact hf.objToRef hs₁
  · cases hstep
    exact hf

theorem Kept.servantReference {servant : Nat} {random : Octets} {found : Option Nat}
    (h : Kept w past s ts) (hcur : past.Current ts) (hc : (s.poas p).created = true)
    (hf : (w.policies p).implicitActivation = true → s.Fresh w p random)
    (hr : s.servantReference w p servant random = .ok (s', found)) : Kept w past s' ts := by
  unfold State.servantReference at hr
  dsimp only at hr
  split at hr
  · obtain ⟨s₁, hs₁, hr⟩ := Outcomes.of_bind hr
    cases hr
    exact h.referenceFor hs₁
  · rename_i hnone
    split at hr
    · rename_i hi
      obtain ⟨⟨s₁, o⟩, hs₁, hr⟩ := Outcomes.of_bind hr
      obtain ⟨s₂, hs₂, hr⟩ := Outcomes.of_bind hr
      cases hr
      refine (h.activateImplicitly hcur hc (hf hi) (fun hu => ?_) hs₁).objToRef hs₂
      rw [if_pos hu] at hnone
      exact List.head?_eq_none_iff.mp hnone
    · exact h.invocationStackLookupObjref hr

theorem Kept.poaServantToReference {servant : Option Nat} {random : Octets} {r : Result}
    (h : Kept w past s ts) (hcur : past.Current ts) (hc : (s.poas p).created = true)
    (hf : (w.policies p).implicitActivation = true → s.Fresh w p random)
    (hr : s.poaServantToReference w p servant random = .ok (s', r)) : Kept w past s' ts := by
  unfold State.poaServantToReference at hr
  dsimp only at hr
  cases servant with
  | none => cases hr
  | some servant =>
    obtain ⟨s₁, hs₁, hr⟩ := Outcomes.of_bind hr
    have h₁ := h.lock hs₁
    split at hr
    · cases hr
      exact h₁
    · obtain ⟨⟨s₂, found⟩, hs₂, hr⟩ := Outcomes.of_bind hr
      cases hr
      exact (h₁.servantReference hcur ((State.lock_created hs₁ p).trans hc)
        (fun hi => (hf hi).lock hs₁) hs₂).unlock

theorem Kept.poaIdToServant {oid : Octets} {r : Result} (h : Kept w past s ts)
    (hd : s.Lendable p oid) (hr : s.poaIdToServant w p oid = .ok (s', r)) : Kept w past s' ts := by
  unfold State.poaIdToServant at hr
  dsimp only at hr
  obtain ⟨s₁, hs₁, hr⟩ := Outcomes.of_bind hr
  have h₁ := h.lock hs₁
  split at hr
  · cases hr
    exact h₁
  · split at hr
    · obtain ⟨⟨s₂, servant⟩, hs₂, hr⟩ := Outcomes.of_bind hr
      cases hr
      unfold State.servantWithId at hs₂
      obtain ⟨found, hfound, hs₂⟩ := Outcomes.of_bind hs₂
      cases found with
      | none =>
        cases hs₂
        exact h₁.unlock
      | some o =>
        obtain ⟨s₃, hs₃, hs₂⟩ := Outcomes.of_bind hs₂
        obtain ⟨x, -, hs₂⟩ := Outcomes.of_bind hs₂
        obtain ⟨s₄, hs₄, hs₂⟩ := Outcomes.of_bind hs₂
        cases hs₂
        have h₃ := h₁.duplicate hs₃
        obtain ⟨y, -, rfl, hdrop⟩ := (hd.lock hs₁).duplicate hfound hs₃
        exact (h₃.release (fun z hz => State.of_mem_setObject hz hdrop) hs₄).unlock
    · cases hr
      exact h₁.unlock

/-- A reference to an object does not take one from it. -/
theorem State.referenceFor_droppable (hx : s.objects o = some x) (hd : s.Droppable x)
    (hr : s.referenceFor o = .ok s') : ∀ y ∈ s'.objects o, s'.Droppable y := by
  unfold State.referenceFor at hr
  obtain ⟨y, hy, hr⟩ := Outcomes.of_bind hr
  cases hx.symm.trans (State.object_ok hy)
  split at hr
  · unfold State.duplicateReference at hr
    obtain ⟨z, hz, hr⟩ := Outcomes.of_bind hr
    cases hx.symm.trans (State.object_ok hz)
    split at hr
    · cases hr
    · cases hr
      exact fun y hy => State.of_mem_setObject hy hd
  · unfold State.objToRef at hr
    obtain ⟨z, hz, hr⟩ := Outcomes.of_bind hr
    cases hx.symm.trans (State.object_ok hz)
    obtain ⟨-, hr⟩ := Outcomes.of_guard hr
    cases hr
    exact fun y hy => State.of_mem_setObject hy fun hde => Nat.lt_succ_of_lt (hd hde)

theorem Kept.poaIdToReference {oid : Octets} {r : Result} (h : Kept w past s ts)
    (hd : s.Lendable p oid) (hr : s.poaIdToReference w p oid = .ok (s', r)) :
    Kept w past s' ts := by
  unfold State.poaIdToReference at hr
  obtain ⟨s₁, hs₁, hr⟩ := Outcomes.of_bind hr
  have h₁ := h.lock hs₁
  split at hr
  · cases hr
    exact h₁
  · obtain ⟨found, hfound, hr⟩ := Outcomes.of_bind hr
    cases found with
    | none =>
      cases hr
      exact h₁.unlock
    | some o =>
      obtain ⟨s₂, hs₂, hr⟩ := Outcomes.of_bind hr
      have h₂ := h₁.duplicate hs₂
      obtain ⟨x, -, rfl, hdrop⟩ := (hd.lock hs₁).duplicate hfound hs₂
      obtain ⟨z, -, hr⟩ := Outcomes.of_bind hr
      split at hr
      · obtain ⟨s₃, hs₃, hr⟩ := Outcomes.of_bind hr
        cases hr
        exact (h₂.release (fun y hy => State.of_mem_setObject hy hdrop) hs₃).unlock
      · obtain ⟨s₃, hs₃, hr⟩ := Outcomes.of_bind hr
        obtain ⟨s₄, hs₄, hr⟩ := Outcomes.of_bind hr
        cases hr
        have hx : (s₁.setObject o { x with refs := x.refs + 1 }).objects o =
            some { x with refs := x.refs + 1 } := by simp
        exact ((h₂.referenceFor hs₃).release (State.referenceFor_droppable hx hdrop hs₃)
          hs₄).unlock

theorem Kept.poaDestroy {etherealize wait : Bool} {r : Result} (h : Kept w past s ts)
    (hr : s.poaDestroy w p etherealize wait = .ok (s', ks, r)) : Kept w past s' (ks ++ ts) := by
  unfold State.poaDestroy at hr
  obtain ⟨s₁, hs₁, hr⟩ := Outcomes.of_bind hr
  have h₁ := h.lock hs₁
  dsimp only at hr
  split at hr
  · cases hr
    exact h₁.unlock
  · obtain ⟨-, hr⟩ := Outcomes.of_guard hr
    split at hr
    · cases hr
      exact h₁.unlock
    · cases hr
      exact h₁.add (fun _ => rfl) (fun _ => rfl)

theorem Kept.poaCreate (h : Kept w past s ts) : Kept w past (s.poaCreate w p) ts := by
  unfold State.poaCreate
  split
  · exact h
  · rename_i hg
    simp only [not_or, not_not] at hg
    have hmap : ∀ q, ((s.setPoa p fun x => { x with created := true }).poas q).map =
        (s.poas q).map := by
      intro q
      rw [State.setPoa_poas]
      split <;> rfl
    constructor
    · intro q hq
      dsimp only at hq
      rw [State.setPoa_poas] at hq
      split at hq
      · rename_i he
        rw [he]
        exact hg.2
      · exact h.accepted q hq
    · intro o x hx
      dsimp only
      rw [State.setPoa_poas]
      split
      · rfl
      · exact h.created o x hx
    · exact h.bound
    · exact h.fresh
    · exact h.listed
    · exact h.nodup
    · exact h.unique
    · intro q e he
      exact h.entries q e (hmap q ▸ he)
    · exact h.live
    · exact h.uses
    · exact h.retained
    · exact h.kept
    · exact h.asked

theorem Kept.managerActivate {m : Nat} {r : Result} (h : Kept w past s ts)
    (hr : s.managerActivate m = .ok (s', r)) : Kept w past s' ts := by
  unfold State.managerActivate at hr
  split at hr
  · cases hr
    exact h
  · obtain ⟨s₁, hs₁, hr⟩ := Outcomes.of_bind hr
    cases hr
    have h' : Kept w past (s.setManagerState m .active) ts :=
      h.congr rfl rfl rfl fun _ => ⟨rfl, rfl⟩
    refine Outcomes.foldlM_ok (P := fun s : State => Kept w past s ts) ?_ h' hs₁
    intro s q s' hs hstep
    unfold State.handleHeldRequests at hstep
    split at hstep
    · cases hstep
      exact hs
    · cases hstep

theorem Kept.managerSuspend {m : Nat} {state : POAManagerState} (h : Kept w past s ts) :
    Kept w past (s.managerSuspend m state).1 ts := by
  unfold State.managerSuspend
  split
  · exact h
  · exact h.congr rfl rfl rfl fun _ => ⟨rfl, rfl⟩

theorem Kept.managerDeactivate {m : Nat} {etherealize wait : Bool} {r : Result}
    (h : Kept w past s ts) (hr : s.managerDeactivate w m etherealize wait = .ok (s', ks, r)) :
    Kept w past s' (ks ++ ts) := by
  unfold State.managerDeactivate at hr
  dsimp only at hr
  split at hr
  · cases hr
    exact h
  · obtain ⟨-, hr⟩ := Outcomes.of_guard hr
    split at hr
    · cases hr
      exact h
    · cases hr
      have h' : Kept w past (s.setManagerState m .inactive) ts :=
        h.congr rfl rfl rfl fun _ => ⟨rfl, rfl⟩
      refine h'.add (fun o => ?_) (fun o => ?_)
      · split <;> rfl
      · split <;> rfl

end

end ORBit2.PortableServer
