import ORBit2.ActiveObjectMap

/-! The locks of the POAs: which of them a thread has on account of what it has still to do. -/

set_option autoImplicit false

namespace ORBit2.PortableServer

/-- What a task says of the lock of a POA: one that it is there to give back, or one less that it
has dropped on the way and will take again. -/
def Task.lockWeight (p : Nat) : Task → Int
  | .unlock q => if q = p then 1 else 0
  | .incarnate c | .preinvoke c => if c.poa = p then 1 else 0
  | .finalize q _ _ _ | .destroyChildren q _ _ => if q = p then -1 else 0
  | _ => 0

def lockCount (p : Nat) (ks : List Task) : Int := (ks.map (Task.lockWeight p)).sum

/-- The tasks of one thread. -/
def State.own (s : State) (t : Nat) : List Task :=
  (s.tasks.filter fun u => u.1 = t).map (·.2)

/-- The thread has the lock. -/
def State.Holds (s : State) (t p : Nat) : Prop := lockCount p (s.own t) = 1

instance (s : State) (t p : Nat) : Decidable (s.Holds t p) := by
  unfold State.Holds; infer_instance

/-- `traverse_cb` runs for `POAManager_deactivate`, which takes no lock. -/
def Unguarded : List Task → Prop
  | .traverse _ _ _ _ (.manager _ _) :: _ => True
  | _ => False

instance (ks : List Task) : Decidable (Unguarded ks) := by
  unfold Unguarded; split <;> infer_instance

/-- What a task needs of those behind it in its thread. -/
def Task.Fits (ks : List Task) : Task → Prop
  | .unlock p => lockCount p ks = 0
  | .incarnate c | .preinvoke c => lockCount c.poa ks = 0
  | .finalize p _ _ _ | .destroyChildren p _ _ | .destroy p _ => lockCount p ks = 1
  | .deactivate p _ .destroy | .traverse p _ _ _ .destroy => lockCount p ks = 1
  | .endUse c => lockCount c.poa ks = 1
  | .deactivateObject p _ _ _ | .etherealize p _ _ => lockCount p ks = 1 ∨ Unguarded ks
  | _ => True

/-- The tasks of a thread, one on top of the other. -/
def Proper : List Task → Prop
  | [] => True
  | k :: ks => k.Fits ks ∧ Proper ks

@[simp] theorem lockCount_nil (p : Nat) : lockCount p [] = 0 := rfl

@[simp] theorem lockCount_cons (p : Nat) (k : Task) (ks : List Task) :
    lockCount p (k :: ks) = k.lockWeight p + lockCount p ks := by simp [lockCount]

@[simp] theorem lockCount_append (p : Nat) (ks ks' : List Task) :
    lockCount p (ks ++ ks') = lockCount p ks + lockCount p ks' := by simp [lockCount]

/-- A thread has a lock once or not at all. -/
theorem Proper.count {ks : List Task} (h : Proper ks) (p : Nat) :
    lockCount p ks = 0 ∨ lockCount p ks = 1 := by
  induction ks with
  | nil => exact .inl rfl
  | cons k ks ih =>
    obtain ⟨hk, hks⟩ := h
    have ih := ih hks
    cases k with
    | unlock q =>
      by_cases hq : q = p
      · subst hq
        have hk : lockCount q ks = 0 := hk
        simp [Task.lockWeight, hk]
      · simpa [Task.lockWeight, hq] using ih
    | incarnate c =>
      by_cases hq : c.poa = p
      · subst hq
        have hk : lockCount c.poa ks = 0 := hk
        simp [Task.lockWeight, hk]
      · simpa [Task.lockWeight, hq] using ih
    | preinvoke c =>
      by_cases hq : c.poa = p
      · subst hq
        have hk : lockCount c.poa ks = 0 := hk
        simp [Task.lockWeight, hk]
      · simpa [Task.lockWeight, hq] using ih
    | finalize q o servant raised =>
      by_cases hq : q = p
      · subst hq
        have hk : lockCount q ks = 1 := hk
        simp [Task.lockWeight, hk]
      · simpa [Task.lockWeight, hq] using ih
    | destroyChildren q etherealize i =>
      by_cases hq : q = p
      · subst hq
        have hk : lockCount q ks = 1 := hk
        simp [Task.lockWeight, hk]
      · simpa [Task.lockWeight, hq] using ih
    | _ => simpa [Task.lockWeight] using ih

/-- No lock is taken or given back. -/
def State.SameLocks (s s' : State) : Prop := ∀ q, (s'.poas q).locked = (s.poas q).locked

section
variable {w : World} {s s' s₁ : State} {ks ls : List Task} {o p : Nat} {x : POAObject}

theorem State.SameLocks.refl (s : State) : s.SameLocks s := fun _ => rfl

theorem State.SameLocks.trans (h : s.SameLocks s₁) (h' : s₁.SameLocks s') : s.SameLocks s' :=
  fun q => (h' q).trans (h q)

theorem State.SameLocks.setObject : s.SameLocks (s.setObject o x) := fun _ => rfl

theorem State.SameLocks.setPoa {f : POA → POA} (hf : ∀ a, (f a).locked = a.locked) :
    s.SameLocks (s.setPoa p f) := by
  intro q
  rw [State.setPoa_poas]
  split
  · exact hf _
  · rfl

theorem State.SameLocks.release (hr : s.release o = .ok s') : s.SameLocks s' := by
  unfold State.release at hr
  obtain ⟨x, -, hr⟩ := Outcomes.of_bind hr
  obtain ⟨-, hr⟩ := Outcomes.of_guard hr
  split at hr
  · unfold State.releaseCb at hr
    obtain ⟨-, hr⟩ := Outcomes.of_guard hr
    split at hr
    · cases hr
      exact .refl s
    · cases hr
      have h : s.SameLocks (s.setPoa x.poa fun p =>
          { p with map := p.map.filter fun e => s.key e ≠ x.objectId }) := .setPoa fun _ => rfl
      exact h
  · cases hr
    exact .refl s

theorem State.SameLocks.duplicate (hr : s.duplicate o = .ok s') : s.SameLocks s' := by
  unfold State.duplicate at hr
  obtain ⟨x, -, hr⟩ := Outcomes.of_bind hr
  cases hr
  exact .refl s

theorem State.SameLocks.createObject {objid : Option Octets} {random : Octets}
    (hr : s.createObject w p objid random = .ok (s', o)) : s.SameLocks s' := by
  unfold State.createObject at hr
  obtain ⟨oid, -, hr⟩ := Outcomes.of_bind hr
  obtain ⟨-, hr⟩ := Outcomes.of_guard hr
  cases hr
  have h : s.SameLocks (s.setPoa p fun x => { x with
    map := s.insertEntry p oid s.nextObject
    nextSysid := (s.poas p).nextSysid + (if objid = none then 1 else 0) }) := .setPoa fun _ => rfl
  exact h

theorem State.SameLocks.activateObject {servant : Option Nat}
    (hr : s.activateObject w p o servant = .ok s') : s.SameLocks s' := by
  obtain ⟨x, sv, -, -, -, -, rfl⟩ := State.activateObject_ok hr
  exact .refl s

theorem State.SameLocks.objToRef {intf : Bool} (hr : s.objToRef o intf = .ok s') :
    s.SameLocks s' := by
  unfold State.objToRef at hr
  obtain ⟨x, -, hr⟩ := Outcomes.of_bind hr
  obtain ⟨-, hr⟩ := Outcomes.of_guard hr
  cases hr
  exact .refl s

theorem State.SameLocks.duplicateReference (hr : s.duplicateReference o = .ok s') :
    s.SameLocks s' := by
  unfold State.duplicateReference at hr
  obtain ⟨x, -, hr⟩ := Outcomes.of_bind hr
  split at hr
  · cases hr
  · cases hr
    exact .refl s

theorem State.SameLocks.releaseReference (hr : s.releaseReference o = .ok s') :
    s.SameLocks s' := by
  unfold State.releaseReference at hr
  obtain ⟨x, -, hr⟩ := Outcomes.of_bind hr
  split at hr
  · cases hr
  · split at hr
    · exact State.SameLocks.setObject.trans (.release hr)
    · cases hr
      exact .refl s

theorem State.SameLocks.referenceFor (hr : s.referenceFor o = .ok s') : s.SameLocks s' := by
  unfold State.referenceFor at hr
  obtain ⟨x, -, hr⟩ := Outcomes.of_bind hr
  split at hr
  · exact .duplicateReference hr
  · exact .objToRef hr

theorem State.SameLocks.unlink {y : POAObject} {servant : Nat}
    (hr : s.unlink o y servant = .ok s') : s.SameLocks s' := by
  unfold State.unlink at hr
  split at hr
  · cases hr
    exact .refl s
  · cases hr

theorem State.SameLocks.endDeactivateObject (hr : s.endDeactivateObject o = .ok s') :
    s.SameLocks s' := by
  unfold State.endDeactivateObject at hr
  obtain ⟨y, -, hr⟩ := Outcomes.of_bind hr
  exact State.SameLocks.setObject.trans (.release hr)

theorem State.SameLocks.endEtherealize {raised : Bool} (hr : s.endEtherealize o raised = .ok s') :
    s.SameLocks s' := by
  unfold State.endEtherealize at hr
  obtain ⟨x, -, hr⟩ := Outcomes.of_bind hr
  obtain ⟨-, hr⟩ := Outcomes.of_guard hr
  exact State.SameLocks.setObject.trans (.endDeactivateObject hr)

theorem State.SameLocks.useServant {c : Call} {servant : Option Nat} {raised raised' : Bool}
    (hr : s.useServant w c servant raised = .ok (s', raised')) : s.SameLocks s' := by
  unfold State.useServant at hr
  obtain ⟨x, -, hr⟩ := Outcomes.of_bind hr
  split at hr
  · cases hr
    exact .refl s
  · split at hr
    · cases hr
      exact .refl s
    · cases hr
      exact .refl s

theorem State.SameLocks.unuseServant {c : Call} {cookie : Nat}
    (hr : s.unuseServant c cookie = .ok (s', ks)) :
    s.SameLocks s' ∧ ∃ servant, ks = [.postinvoke c cookie servant] := by
  unfold State.unuseServant at hr
  obtain ⟨x, -, hr⟩ := Outcomes.of_bind hr
  obtain ⟨-, hr⟩ := Outcomes.of_guard hr
  split at hr
  · cases hr
  · rename_i servant _
    obtain ⟨s₁, hs₁, hr⟩ := Outcomes.of_bind hr
    obtain ⟨s₂, hs₂, hr⟩ := Outcomes.of_bind hr
    obtain ⟨y, -, hr⟩ := Outcomes.of_bind hr
    split at hr
    · cases hr
    · cases hr
      have h : s.SameLocks s₂ := .trans (.unlink hs₁) (.release hs₂)
      exact ⟨h, servant, rfl⟩

/-- The lock is taken, and only this one. -/
theorem State.lock_locked (hts : w.threadSafe = true) (hl : s.lock w p = .ok s') :
    (s.poas p).locked = false ∧ (s'.poas p).locked = true ∧
      ∀ q, q ≠ p → (s'.poas q).locked = (s.poas q).locked := by
  unfold State.lock at hl
  rw [if_neg (by simp [hts])] at hl
  split at hl
  · cases hl
  · rename_i hfree
    cases hl
    refine ⟨by simpa using hfree, by simp, fun q hq => ?_⟩
    rw [State.setPoa_poas, if_neg hq]

theorem State.unlock_locked (hts : w.threadSafe = true) (s : State) (p : Nat) :
    ((s.unlock w p).poas p).locked = false ∧
      ∀ q, q ≠ p → ((s.unlock w p).poas q).locked = (s.poas q).locked := by
  unfold State.unlock
  rw [if_neg (by simp [hts])]
  refine ⟨by simp, fun q hq => ?_⟩
  rw [State.setPoa_poas, if_neg hq]

/-- A lock that is given back at the end. -/
theorem State.SameLocks.unlock (hts : w.threadSafe = true) (hl : s.lock w p = .ok s₁)
    (h : s₁.SameLocks s') : s.SameLocks (s'.unlock w p) := by
  intro q
  obtain ⟨hfree, -, hothers⟩ := State.lock_locked hts hl
  obtain ⟨hunlocked, hrest⟩ := State.unlock_locked hts s' p
  by_cases hq : q = p
  · rw [hq, hunlocked, hfree]
  · rw [hrest q hq, h q, hothers q hq]

/-- What becomes of the locks, and of the tasks of a thread that has that of `p`: the lock is
taken as long as the tasks say so. -/
structure Guarded (p : Nat) (s s' : State) (ks ls : List Task) : Prop where
  proper : Proper ls
  here : lockCount p ls = if (s'.poas p).locked then 1 else 0
  others : ∀ q, q ≠ p → (s'.poas q).locked = (s.poas q).locked ∧ lockCount q ls = lockCount q ks

theorem Guarded.of_same (hs : (s.poas p).locked = true) (h : s.SameLocks s') (hp : Proper ls)
    (hl : lockCount p ls = 1) (ho : ∀ q, q ≠ p → lockCount q ls = lockCount q ks) :
    Guarded p s s' ks ls where
  proper := hp
  here := by
    rw [h p, hs, hl]
    rfl
  others q hq := ⟨h q, ho q hq⟩

theorem Guarded.of_unlock (hts : w.threadSafe = true) (hp : Proper ls) (hl : lockCount p ls = 0)
    (ho : ∀ q, q ≠ p → lockCount q ls = lockCount q ks) (h : s.SameLocks s₁) :
    Guarded p s (s₁.unlock w p) ks ls where
  proper := hp
  here := by
    rw [(State.unlock_locked hts s₁ p).1, hl]
    rfl
  others q hq := ⟨((State.unlock_locked hts s₁ p).2 q hq).trans (h q), ho q hq⟩

theorem Guarded.before (h : Guarded p s₁ s' ks ls) (hs : s.SameLocks s₁) : Guarded p s s' ks ls where
  proper := h.proper
  here := h.here
  others q hq := ⟨((h.others q hq).1).trans (hs q), (h.others q hq).2⟩

/-- Other tasks below. -/
theorem Guarded.below {ks' : List Task} (h : Guarded p s s' ks ls)
    (ho : ∀ q, q ≠ p → lockCount q ks = lockCount q ks') : Guarded p s s' ks' ls where
  proper := h.proper
  here := h.here
  others q hq := ⟨(h.others q hq).1, (h.others q hq).2.trans (ho q hq)⟩

theorem Guarded.callFinalize {servant : Nat} {raised : Bool} (hts : w.threadSafe = true)
    (hs : (s.poas p).locked = true) (hp : Proper ks) (hk : lockCount p ks = 1)
    (hr : s.callFinalize w p o servant raised = .ok (s', ls)) : Guarded p s s' ks (ls ++ ks) := by
  unfold State.callFinalize at hr
  split at hr
  · cases hr
    refine .of_unlock hts ⟨hk, hp⟩ ?_ (fun q hq => ?_) (.refl s)
    · simp [Task.lockWeight, hk]
    · simp [Task.lockWeight, Ne.symm hq]
  · obtain ⟨s₁, hs₁, hr⟩ := Outcomes.of_bind hr
    cases hr
    exact .of_same hs (.endEtherealize hs₁) hp hk fun _ _ => rfl

theorem Guarded.etherealizeObject {servant : Nat} (hts : w.threadSafe = true)
    (hs : (s.poas p).locked = true) (hp : Proper ks) (hk : lockCount p ks = 1)
    (hr : s.etherealizeObject w p o servant = .ok (s', ls)) : Guarded p s s' ks (ls ++ ks) := by
  unfold State.etherealizeObject at hr
  obtain ⟨x, -, hr⟩ := Outcomes.of_bind hr
  split at hr
  · dsimp only at hr
    split at hr
    · split at hr
      · cases hr
        refine .of_same hs (.refl s) ⟨.inl hk, hp⟩ ?_ fun q _ => ?_
        · simp [Task.lockWeight, hk]
        · simp [Task.lockWeight]
      · cases hr
    · have h : Guarded p (s.setObject o { x with useCnt := x.useCnt + 1 }) s' ks (ls ++ ks) :=
        .callFinalize hts hs hp hk hr
      exact h.before .setObject
  · obtain ⟨s₁, hs₁, hr⟩ := Outcomes.of_bind hr
    cases hr
    exact .of_same hs (.endDeactivateObject hs₁) hp hk fun _ _ => rfl

theorem Guarded.deactivateObject {etherealize cleanup : Bool} (hts : w.threadSafe = true)
    (hs : (s.poas p).locked = true) (hp : Proper ks) (hk : lockCount p ks = 1)
    (hr : s.deactivateObject w p o etherealize cleanup = .ok (s', ls)) :
    Guarded p s s' ks (ls ++ ks) := by
  unfold State.deactivateObject at hr
  obtain ⟨x, -, hr⟩ := Outcomes.of_bind hr
  split at hr
  · cases hr
    exact .of_same hs (.refl s) hp hk fun _ _ => rfl
  · dsimp only at hr
    split at hr
    · cases hr
      exact .of_same hs (.refl s) hp hk fun _ _ => rfl
    · obtain ⟨s₁, hs₁, hr⟩ := Outcomes.of_bind hr
      have h₁ : s.SameLocks s₁ := .unlink hs₁
      exact .before (.etherealizeObject hts ((h₁ p).trans hs) hp hk hr) h₁

/-- The end of a request, by a thread that has the lock without any task to give it back. -/
theorem Guarded.endRequest {c : Call} {cookie : Nat} (hts : w.threadSafe = true)
    (hs : (s.poas c.poa).locked = true) (hp : Proper ks) (hk : lockCount c.poa ks = 0)
    (hr : s.endRequest w c cookie = .ok (s', ls)) : Guarded c.poa s s' ks (ls ++ ks) := by
  unfold State.endRequest at hr
  obtain ⟨⟨s₁, tasks⟩, hs₁, hr⟩ := Outcomes.of_bind hr
  cases hr
  have hk₁ : lockCount c.poa (.unlock c.poa :: ks) = 1 := by simp [Task.lockWeight, hk]
  have hk₂ : lockCount c.poa (.endUse c :: .unlock c.poa :: ks) = 1 := by
    simp [Task.lockWeight, hk]
  have hp₂ : Proper (.endUse c :: .unlock c.poa :: ks) := ⟨hk₁, hk, hp⟩
  have hbelow : ∀ q, q ≠ c.poa →
      lockCount q (.endUse c :: .unlock c.poa :: ks) = lockCount q ks := by
    intro q hq
    simp [Task.lockWeight, Ne.symm hq]
  rw [List.append_assoc]
  unfold State.unuse at hs₁
  obtain ⟨x, -, hs₁⟩ := Outcomes.of_bind hs₁
  split at hs₁
  · cases hs₁
    exact .of_same hs (.refl s) hp₂ hk₂ hbelow
  · split at hs₁
    · obtain ⟨hsame, servant, rfl⟩ := State.SameLocks.unuseServant hs₁
      refine .of_same hs hsame ⟨trivial, hp₂⟩ ?_ fun q hq => ?_
      · simpa [Task.lockWeight] using hk₂
      · simpa [Task.lockWeight] using hbelow q hq
    · exact (Guarded.deactivateObject hts hs hp₂ hk₂ hs₁).below hbelow
    · cases hs₁

theorem Guarded.dispatch {c : Call} {cookie : Nat} (hts : w.threadSafe = true)
    (hs : (s.poas c.poa).locked = true) (hp : Proper ks) (hk : lockCount c.poa ks = 0)
    (hr : s.dispatch w c cookie = .ok (s', ls)) : Guarded c.poa s s' ks (ls ++ ks) := by
  unfold State.dispatch at hr
  obtain ⟨x, -, hr⟩ := Outcomes.of_bind hr
  split at hr
  · cases hr
  · dsimp only at hr
    generalize hs₁ : ({ s.setObject c.object { x with useCnt := (x.useCnt + 1) % useCntMod } with
      invocations := c.object :: s.invocations } : State) = s₁ at hr
    have h₁ : s.SameLocks s₁ := by
      rw [← hs₁]
      exact fun _ => rfl
    split at hr
    · cases hr
      have h : Guarded c.poa s (s₁.unlock w c.poa) ks (.method c cookie :: ks) := by
        refine .of_unlock hts ⟨trivial, hp⟩ ?_ (fun q _ => ?_) h₁
        · simp [Task.lockWeight, hk]
        · simp [Task.lockWeight]
      subst hs₁
      exact ⟨h.proper, h.here, h.others⟩
    · have h := Guarded.endRequest hts ((h₁ c.poa).trans hs) hp hk hr
      exact h.before h₁

theorem Guarded.served {c : Call} {cookie : Nat} {raised : Bool} (hts : w.threadSafe = true)
    (hs : (s.poas c.poa).locked = true) (hp : Proper ks) (hk : lockCount c.poa ks = 0)
    (hr : s.served w c cookie raised = .ok (s', ls)) : Guarded c.poa s s' ks (ls ++ ks) := by
  unfold State.served at hr
  obtain ⟨x, -, hr⟩ := Outcomes.of_bind hr
  split at hr
  · exact .dispatch hts hs hp hk hr
  · cases hr
    exact .of_unlock hts hp hk (fun _ _ => rfl) (.refl s)

/-- What a thread may rely on at its next task. -/
structure Standing (s : State) (ks : List Task) : Prop where
  proper : Proper ks
  held : ∀ p, lockCount p ks = 1 → (s.poas p).locked = true

theorem Standing.free (h : Standing s ks) (hs : (s.poas p).locked = false) :
    lockCount p ks = 0 := by
  rcases h.proper.count p with h0 | h1
  · exact h0
  · rw [h.held p h1] at hs
    cases hs

/-- What a step of a thread does: a lock stays as it is, or the thread takes it, or gives it
back. -/
structure LockStep (s s' : State) (ks ls : List Task) : Prop where
  proper : Proper ls
  locks : ∀ p, ((s'.poas p).locked = (s.poas p).locked ∧ lockCount p ls = lockCount p ks) ∨
    ((s.poas p).locked = false ∧ (s'.poas p).locked = true ∧ lockCount p ls = 1) ∨
    (lockCount p ks = 1 ∧ (s'.poas p).locked = false ∧ lockCount p ls = 0)

theorem LockStep.of_same (h : s.SameLocks s') (hp : Proper ls)
    (hl : ∀ p, lockCount p ls = lockCount p ks) : LockStep s s' ks ls :=
  ⟨hp, fun p => .inl ⟨h p, hl p⟩⟩

/-- The thread had the lock before. -/
theorem Guarded.step_held (h : Guarded p s s' ks ls) (hs : (s.poas p).locked = true)
    (hk : lockCount p ks = 1) : LockStep s s' ks ls where
  proper := h.proper
  locks q := by
    by_cases hq : q = p
    · subst hq
      have hhere := h.here
      cases hl : (s'.poas q).locked with
      | true =>
        rw [hl] at hhere
        exact .inl ⟨by rw [hs], by rw [hk]; simpa using hhere⟩
      | false =>
        rw [hl] at hhere
        exact .inr (.inr ⟨hk, rfl, by simpa using hhere⟩)
    · exact .inl (h.others q hq)

/-- The thread has just taken the lock. -/
theorem Guarded.step_taken (h : Guarded p s₁ s' ks ls) (hts : w.threadSafe = true)
    (hl : s.lock w p = .ok s₁) (hk : lockCount p ks = 0) : LockStep s s' ks ls where
  proper := h.proper
  locks q := by
    obtain ⟨hfree, -, hothers⟩ := State.lock_locked hts hl
    by_cases hq : q = p
    · subst hq
      have hhere := h.here
      cases hl : (s'.poas q).locked with
      | true =>
        rw [hl] at hhere
        exact .inr (.inl ⟨hfree, rfl, by simpa using hhere⟩)
      | false =>
        rw [hl] at hhere
        exact .inl ⟨hfree.symm, by rw [hk]; simpa using hhere⟩
    · obtain ⟨hsame, hcount⟩ := h.others q hq
      exact .inl ⟨hsame.trans (hothers q hq), hcount⟩

theorem LockStep.handleRequest {c : Call} (hts : w.threadSafe = true)
    (hst : Standing s (.request c :: ks)) (hr : s.handleRequest w c = .ok (s', ls)) :
    LockStep s s' (.request c :: ks) (ls ++ ks) := by
  unfold State.handleRequest at hr
  obtain ⟨x, -, hr⟩ := Outcomes.of_bind hr
  obtain ⟨s₁, hs₁, hr⟩ := Outcomes.of_bind hr
  obtain ⟨hfree, hlocked, -⟩ := State.lock_locked hts hs₁
  have hp : Proper ks := hst.proper.2
  have hk : lockCount c.poa ks = 0 := by simpa [Task.lockWeight] using hst.free hfree
  have hk' : lockCount c.poa (.request c :: ks) = 0 := hst.free hfree
  have hunlock : ∀ s₂, s₁.SameLocks s₂ →
      Guarded c.poa s₁ (s₂.unlock w c.poa) (.request c :: ks) ks := by
    intro s₂ hs₂
    exact .of_unlock hts hp hk (fun q _ => by simp [Task.lockWeight]) hs₂
  have hdispatch : ∀ s₂, s₁.SameLocks s₂ → s₂.dispatch w c 0 = .ok (s', ls) →
      Guarded c.poa s₁ s' (.request c :: ks) (ls ++ ks) := by
    intro s₂ hs₂ hd
    have h := Guarded.dispatch hts ((hs₂ c.poa).trans hlocked) hp hk hd
    exact (h.before hs₂).below fun q _ => by simp [Task.lockWeight]
  refine Guarded.step_taken ?_ hts hs₁ hk'
  split at hr
  · cases hr
    refine hunlock _ ?_
    split
    · exact .setPoa fun _ => rfl
    · exact .refl s₁
  · cases hr
    exact hunlock s₁ (.refl s₁)
  · cases hr
    exact hunlock s₁ (.refl s₁)
  · split at hr
    · exact hdispatch s₁ (.refl s₁) hr
    · split at hr
      · cases hr
        exact hunlock s₁ (.refl s₁)
      · obtain ⟨s₂, hs₂, hr⟩ := Outcomes.of_bind hr
        exact hdispatch s₂ (.activateObject hs₂) hr
      · split at hr
        · cases hr
          split
          · refine .of_same hlocked (.refl _) ⟨hk, hp⟩ ?_ fun q hq => ?_
            · simp [Task.lockWeight, hk]
            · simp [Task.lockWeight, Ne.symm hq]
          · refine .of_same hlocked (.refl _) ⟨hk, hp⟩ ?_ fun q hq => ?_
            · simp [Task.lockWeight, hk]
            · simp [Task.lockWeight, Ne.symm hq]
        · cases hr

theorem LockStep.incarnated {c : Call} {servant : Option Nat} {raised : Bool}
    (hts : w.threadSafe = true) (hst : Standing s (.incarnate c :: ks))
    (hr : s.incarnated w c servant raised = .ok (s', ls)) :
    LockStep s s' (.incarnate c :: ks) (ls ++ ks) := by
  unfold State.incarnated at hr
  obtain ⟨⟨s₁, raised'⟩, hs₁, hr⟩ := Outcomes.of_bind hr
  have hk : lockCount c.poa ks = 0 := hst.proper.1
  have hk' : lockCount c.poa (.incarnate c :: ks) = 1 := by simp [Task.lockWeight, hk]
  have hs := hst.held c.poa hk'
  have h₁ : s.SameLocks s₁ := .useServant hs₁
  have h := Guarded.served hts ((h₁ c.poa).trans hs) hst.proper.2 hk hr
  refine ((h.before h₁).below fun q hq => ?_).step_held hs hk'
  simp [Task.lockWeight, Ne.symm hq]

theorem LockStep.preinvoked {c : Call} {servant : Option Nat} {cookie : Nat} {raised : Bool}
    (hts : w.threadSafe = true) (hst : Standing s (.preinvoke c :: ks))
    (hr : s.preinvoked w c servant cookie raised = .ok (s', ls)) :
    LockStep s s' (.preinvoke c :: ks) (ls ++ ks) := by
  unfold State.preinvoked at hr
  obtain ⟨x, -, hr⟩ := Outcomes.of_bind hr
  obtain ⟨⟨s₁, raised'⟩, hs₁, hr⟩ := Outcomes.of_bind hr
  have hk : lockCount c.poa ks = 0 := hst.proper.1
  have hk' : lockCount c.poa (.preinvoke c :: ks) = 1 := by simp [Task.lockWeight, hk]
  have hs := hst.held c.poa hk'
  have h₁ : s.SameLocks s₁ := by
    have h := State.SameLocks.useServant hs₁
    exact h
  have h := Guarded.served hts ((h₁ c.poa).trans hs) hst.proper.2 hk hr
  refine ((h.before h₁).below fun q hq => ?_).step_held hs hk'
  simp [Task.lockWeight, Ne.symm hq]

theorem LockStep.returned {c : Call} {cookie : Nat} (hts : w.threadSafe = true)
    (hst : Standing s (.method c cookie :: ks)) (hr : s.returned w c cookie = .ok (s', ls)) :
    LockStep s s' (.method c cookie :: ks) (ls ++ ks) := by
  unfold State.returned at hr
  obtain ⟨s₁, hs₁, hr⟩ := Outcomes.of_bind hr
  obtain ⟨hfree, hlocked, -⟩ := State.lock_locked hts hs₁
  have hk' : lockCount c.poa (.method c cookie :: ks) = 0 := hst.free hfree
  have hk : lockCount c.poa ks = 0 := by simpa [Task.lockWeight] using hk'
  have h := Guarded.endRequest hts hlocked hst.proper.2 hk hr
  exact (h.below fun q _ => by simp [Task.lockWeight]).step_taken hts hs₁ hk'

theorem LockStep.endUse {c : Call} (hts : w.threadSafe = true)
    (hst : Standing s (.endUse c :: ks)) (hr : s.endUse w c = .ok (s', ls)) :
    LockStep s s' (.endUse c :: ks) (ls ++ ks) := by
  have hk : lockCount c.poa ks = 1 := hst.proper.1
  have hk' : lockCount c.poa (.endUse c :: ks) = 1 := by simp [Task.lockWeight, hk]
  have hs := hst.held c.poa hk'
  unfold State.endUse at hr
  obtain ⟨x, -, hr⟩ := Outcomes.of_bind hr
  dsimp only at hr
  generalize hs₁ : ({ s.setObject c.object
      { x with useCnt := (x.useCnt + (useCntMod - 1)) % useCntMod } with
    invocations := s.invocations.erase c.object } : State) = s₁ at hr
  have h₁ : s.SameLocks s₁ := by
    rw [← hs₁]
    exact fun _ => rfl
  have hsame : LockStep s s₁ (.endUse c :: ks) ks :=
    .of_same h₁ hst.proper.2 fun q => by simp [Task.lockWeight]
  split at hr
  · unfold State.postInvoke at hr
    obtain ⟨y, -, hr⟩ := Outcomes.of_bind hr
    split at hr
    · cases hr
      exact hsame
    · split at hr
      · have h := Guarded.deactivateObject hts ((h₁ c.poa).trans hs) hst.proper.2 hk hr
        refine ((h.before h₁).below fun q _ => ?_).step_held hs hk'
        simp [Task.lockWeight]
      · cases hr
        exact hsame
  · cases hr
    exact hsame

theorem LockStep.finalized {servant : Nat} {raised raised' : Bool} (hts : w.threadSafe = true)
    (hst : Standing s (.finalize p o servant raised' :: ks))
    (hr : s.finalized w p o raised = .ok s') :
    LockStep s s' (.finalize p o servant raised' :: ks) ks := by
  unfold State.finalized at hr
  obtain ⟨s₁, hs₁, hr⟩ := Outcomes.of_bind hr
  obtain ⟨-, hlocked, -⟩ := State.lock_locked hts hs₁
  have hk : lockCount p ks = 1 := hst.proper.1
  have h : Guarded p s₁ s' (.finalize p o servant raised' :: ks) ks :=
    .of_same hlocked (.endEtherealize hr) hst.proper.2 hk fun q hq => by
      simp [Task.lockWeight, Ne.symm hq]
  exact h.step_taken hts hs₁ (by simp [Task.lockWeight, hk])

end

end ORBit2.PortableServer
