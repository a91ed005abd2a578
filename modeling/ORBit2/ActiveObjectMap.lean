import ORBit2.PoaRuns

/-! The active object map of a POA in all runs: who is on the list of a servant, which objects
keep theirs, and what the entries of the map are. -/

set_option autoImplicit false

namespace ORBit2.PortableServer

/-- What the threads have still to do. -/
def State.pending (s : State) : List Task := s.tasks.map (·.2)

/-- The requests that use an object. -/
def State.requests (s : State) (o : Nat) : Nat := requestUses o s.pending

structure State.ActiveObjectMap (w : World) (s : State) : Prop where
  /-- an object is on the list of its servant once, and on no other list -/
  linked : ∀ servant o, (s.privates servant).count o =
    if (s.objects o).bind (·.servant) = some servant then 1 else 0
  unique : ∀ o o' x x' servant, s.objects o = some x → s.objects o' = some x' → x.poa = x'.poa →
    (w.policies x.poa).uniqueId = true → x.servant = some servant → x'.servant = some servant →
    o = o'
  /-- an object is in use by requests, or, with no servant any more, while that is finalized -/
  used : ∀ o x, s.objects o = some x → (w.policies x.poa).retain = true →
    x.useCnt = s.requests o + finalUses o s.pending ∧
    (0 < s.requests o → x.servant ≠ none) ∧ (x.servant ≠ none → finalUses o s.pending = 0)
  /-- no deactivation is left undone behind the last use -/
  deferred : ∀ o x, s.objects o = some x → (w.policies x.poa).retain = true →
    x.life.deactivateDo = true → 0 < x.useCnt
  /-- an entry has the id of its object for a key -/
  entries : ∀ p, ∀ e ∈ (s.poas p).map, ∃ x oid, s.objects e.2 = some x ∧ x.poa = p ∧
    x.objectId = some oid ∧ s.key e = some oid

/-- An object in use keeps its servant, and the order to deactivate it, over the step from `s` to
`s'`; behind its last use the order is carried out. -/
def State.ServantsKept (w : World) (s s' : State) : Prop :=
  ∀ o x servant, s.objects o = some x → (w.policies x.poa).retain = true →
    x.servant = some servant → 0 < s.requests o →
    (0 < s'.requests o → ∃ x', s'.objects o = some x' ∧ x'.servant = some servant ∧
      (x.life.deactivateDo = true → x'.life.deactivateDo = true)) ∧
    (s'.requests o = 0 → x.life.deactivateDo = true →
      ∀ x' ∈ s'.objects o, x'.servant ≠ some servant)

section
variable (w : World)

/-- An operation makes no id a second time, and gives back no last reference to an object of a
POA that walks over its map. -/
def State.CarefulCall (s : State) : Operation → Prop
  | .activateObject p _ random | .createReference p _ random => s.Fresh w p random
  | .servantToId p _ random | .servantToReference p _ random =>
      (w.policies p).implicitActivation = true → s.Fresh w p random
  | .activateObjectWithId p oid _ | .idToServant p oid | .idToReference p oid => s.Lendable p oid
  | .releaseReference o => ∀ x ∈ s.objects o, x.objref = some 1 → s.Droppable x
  | _ => True

instance (s : State) (op : Operation) : Decidable (s.CarefulCall w op) := by
  unfold State.CarefulCall; induction op using Operation.casesOn <;> infer_instance

/-- Nor does the next piece of a task, and the use count of an object stays a `guint16`. -/
def State.CarefulTask (s : State) : Task → Prop
  | .deactivateObject _ o etherealize cleanup =>
      ∀ x ∈ s.objects o, s.Deactivatable w x etherealize cleanup
  | .release o => ∀ x ∈ s.objects o, s.Droppable x
  | .request c => ∀ x ∈ s.objects c.object, s.Usable w c x
  | .endUse c => ∀ x ∈ s.objects c.object, s.Endable w x
  | _ => True

instance (s : State) (k : Task) : Decidable (s.CarefulTask w k) := by
  unfold State.CarefulTask; cases k <;> infer_instance

/-- Nor does what follows an answer of the application; a servant is returned for an object that
has none. -/
def State.CarefulAnswer (s : State) (r : Reply) : Task → Prop
  | .etherealize _ o servant =>
      (w.classInfo servant).finalizes = false → ∀ x ∈ s.objects o, s.Droppable x
  | .finalize _ o _ _ => ∀ x ∈ s.objects o, s.Droppable x
  | .incarnate c | .preinvoke c => ∀ x ∈ s.objects c.object, s.Answerable w c r.servant r.raised x
  | .method c _ => ∀ x ∈ s.objects c.object, s.Returnable w x
  | _ => True

instance (s : State) (r : Reply) (k : Task) : Decidable (s.CarefulAnswer w r k) := by
  unfold State.CarefulAnswer; cases k <;> infer_instance

/-- The steps that leave the active object map in order. -/
def State.Careful (s : State) : Event → Prop
  | .call _ op => s.CarefulCall w op
  | .run t => ∀ k ∈ (nextTask t s.tasks).map (·.1), s.CarefulTask w k
  | .answer t r => ∀ k ∈ (nextTask t s.tasks).map (·.1), s.CarefulAnswer w r k

instance (s : State) (e : Event) : Decidable (s.Careful w e) := by
  unfold State.Careful; cases e <;> infer_instance

/-- The objects that requests use now. -/
def State.past (s : State) : Past := fun o =>
  match s.objects o with
  | some x =>
      if (w.policies x.poa).retain = true ∧ 0 < s.requests o then
        x.servant.map fun servant => (servant, x.life.deactivateDo)
      else none
  | none => none

end

section
variable {w : World} {past : Past} {s s' : State} {ts ks : List Task}

theorem Kept.perform {op : Operation} {r : Result} (h : Kept w past s ts)
    (hcur : past.Current ts) (hcan : ∀ p ∈ op.poa, (s.poas p).created = true)
    (hd : s.CarefulCall w op) (hr : s.perform w op = .ok (s', ks, r)) :
    Kept w past s' (ks ++ ts) := by
  cases op with
  | createPOA p =>
    cases hr
    exact h.poaCreate
  | setThreadHint p hint =>
    cases hr
    exact h.setPoa (fun _ => rfl) (fun _ => rfl)
  | setServant p servant =>
    cases hr
    exact h.setPoa (fun _ => rfl) (fun _ => rfl)
  | setServantManager p =>
    simp only [State.perform] at hr
    split at hr
    · cases hr
      exact h
    · cases hr
      exact h.setPoa (fun _ => rfl) (fun _ => rfl)
  | activateObject p servant random =>
    obtain ⟨⟨s₁, r₁⟩, hs₁, hr⟩ := Outcomes.of_bind hr
    cases hr
    exact h.poaActivateObject hcur (hcan p rfl) hd hs₁
  | activateObjectWithId p oid servant =>
    obtain ⟨⟨s₁, r₁⟩, hs₁, hr⟩ := Outcomes.of_bind hr
    cases hr
    exact h.poaActivateObjectWithId hcur (hcan p rfl) hd hs₁
  | deactivateObject p oid => exact h.poaDeactivateObject hr
  | createReference p intf random =>
    obtain ⟨⟨s₁, r₁⟩, hs₁, hr⟩ := Outcomes.of_bind hr
    cases hr
    exact h.poaCreateReference hcur (hcan p rfl) hd hs₁
  | createReferenceWithId p oid intf =>
    obtain ⟨⟨s₁, r₁⟩, hs₁, hr⟩ := Outcomes.of_bind hr
    cases hr
    exact h.poaCreateReferenceWithId hs₁
  | servantToId p servant random =>
    obtain ⟨⟨s₁, r₁⟩, hs₁, hr⟩ := Outcomes.of_bind hr
    cases hr
    exact h.poaServantToId hcur (hcan p rfl) hd hs₁
  | servantToReference p servant random =>
    obtain ⟨⟨s₁, r₁⟩, hs₁, hr⟩ := Outcomes.of_bind hr
    cases hr
    exact h.poaServantToReference hcur (hcan p rfl) hd hs₁
  | referenceToServant p reference =>
    obtain ⟨r₁, -, hr⟩ := Outcomes.of_bind hr
    cases hr
    exact h
  | referenceToId p reference =>
    obtain ⟨r₁, -, hr⟩ := Outcomes.of_bind hr
    cases hr
    exact h
  | idToServant p oid =>
    obtain ⟨⟨s₁, r₁⟩, hs₁, hr⟩ := Outcomes.of_bind hr
    cases hr
    exact h.poaIdToServant hd hs₁
  | idToReference p oid =>
    obtain ⟨⟨s₁, r₁⟩, hs₁, hr⟩ := Outcomes.of_bind hr
    cases hr
    exact h.poaIdToReference hd hs₁
  | currentGetPOA =>
    obtain ⟨r₁, -, hr⟩ := Outcomes.of_bind hr
    cases hr
    exact h
  | currentGetObjectId =>
    obtain ⟨r₁, -, hr⟩ := Outcomes.of_bind hr
    cases hr
    exact h
  | destroy p etherealize wait => exact h.poaDestroy hr
  | managerActivate m =>
    obtain ⟨⟨s₁, r₁⟩, hs₁, hr⟩ := Outcomes.of_bind hr
    cases hr
    exact h.managerActivate hs₁
  | holdRequests m =>
    cases hr
    exact h.managerSuspend
  | discardRequests m =>
    cases hr
    exact h.managerSuspend
  | managerDeactivate m etherealize wait => exact h.managerDeactivate hr
  | duplicateReference o =>
    obtain ⟨s₁, hs₁, hr⟩ := Outcomes.of_bind hr
    cases hr
    exact h.duplicateReference hs₁
  | releaseReference o =>
    obtain ⟨s₁, hs₁, hr⟩ := Outcomes.of_bind hr
    cases hr
    exact h.releaseReference hd hs₁
  | invoke o opname =>
    obtain ⟨⟨s₁, ks₁⟩, hs₁, hr⟩ := Outcomes.of_bind hr
    cases hr
    exact h.invoke hs₁
  | incoming p oid opname =>
    obtain ⟨⟨s₁, ks₁⟩, hs₁, hr⟩ := Outcomes.of_bind hr
    cases hr
    exact h.incoming hcur (hcan p rfl) hs₁
  | serve i =>
    simp only [State.perform] at hr
    split at hr
    · cases hr
      exact h
    · rename_i c _
      cases hr
      have h' : Kept w past { s with queue := s.queue.eraseIdx i } ts :=
        h.congr rfl rfl rfl fun _ => ⟨rfl, rfl⟩
      exact h'.add c.requestUses_tasks c.finalUses_tasks

/-- A task that uses no object is taken away. -/
theorem Kept.take {k : Task} (h : Kept w past s (k :: ts)) (hr : ∀ o, k.requestUse o = 0)
    (hf : ∀ o, k.finalUse o = 0) : Kept w past s ts := by
  refine h.tasks (fun o => ?_) (fun o => ?_)
  · rw [requestUses_cons, hr, Nat.zero_add]
  · rw [finalUses_cons, hf, Nat.zero_add]

theorem Past.Current.take {k : Task} (h : past.Current (k :: ts)) (hr : ∀ o, k.requestUse o = 0) :
    past.Current ts := by
  intro o ho
  refine h o ?_
  rw [requestUses_cons, hr, ho]

theorem Kept.runTask {k : Task} (h : Kept w past s (k :: ts)) (hcur : past.Current (k :: ts))
    (hk : k.waits = false) (hd : s.CarefulTask w k) (hr : s.runTask w k = .ok (s', ks)) :
    Kept w past s' (ks ++ ts) := by
  cases k with
  | deactivateObject p o etherealize cleanup =>
    exact (h.take (fun _ => rfl) (fun _ => rfl)).deactivateObject_self hd hr
  | release o =>
    obtain ⟨s₁, hs₁, hr⟩ := Outcomes.of_bind hr
    cases hr
    exact (h.take (fun _ => rfl) (fun _ => rfl)).release hd hs₁
  | unlock p =>
    cases hr
    exact (h.take (fun _ => rfl) (fun _ => rfl)).unlock
  | request c =>
    exact (h.take (fun _ => rfl) (fun _ => rfl)).handleRequest (hcur.take fun _ => rfl) hd hr
  | endUse c => exact h.endUse hd hr
  | deactivate p etherealize caller => exact (h.take (fun _ => rfl) (fun _ => rfl)).deactivate hr
  | traverse p rest inUse etherealize caller =>
    exact (h.take (fun _ => rfl) (fun _ => rfl)).traverse hr
  | destroy p etherealize =>
    exact (h.take (fun _ => rfl) (fun _ => rfl)).destroy (Except.ok.inj hr)
  | destroyChildren p etherealize i =>
    exact (h.take (fun _ => rfl) (fun _ => rfl)).destroyChildren hr
  | destroyEnd p wait =>
    obtain ⟨-, hr⟩ := Outcomes.of_guard hr
    cases hr
    exact h.take (fun _ => rfl) (fun _ => rfl)
  | etherealize p o servant => cases hk
  | finalize p o servant raised => cases hk
  | incarnate c => cases hk
  | preinvoke c => cases hk
  | method c cookie => cases hk
  | postinvoke c cookie servant => cases hk

theorem Kept.resumeTask {k : Task} {r : Reply} (h : Kept w past s (k :: ts))
    (hcur : past.Current (k :: ts)) (hk : k.waits = true) (hd : s.CarefulAnswer w r k)
    (hr : s.resumeTask w r k = .ok (s', ks)) : Kept w past s' (ks ++ ts) := by
  cases k with
  | etherealize p o servant =>
    have h' : Kept w past s (.finalize p o servant false :: ts) :=
      h.tasks (fun _ => rfl) (fun _ => rfl)
    exact h'.callFinalize hd hr
  | finalize p o servant raised =>
    obtain ⟨s₁, hs₁, hr⟩ := Outcomes.of_bind hr
    cases hr
    exact h.finalized hd hs₁
  | incarnate c =>
    exact (h.take (fun _ => rfl) (fun _ => rfl)).incarnated (hcur.take fun _ => rfl) hd hr
  | preinvoke c =>
    exact (h.take (fun _ => rfl) (fun _ => rfl)).preinvoked (hcur.take fun _ => rfl) hd hr
  | method c cookie => exact h.returned hd hr
  | postinvoke c cookie servant =>
    cases hr
    exact h.take (fun _ => rfl) (fun _ => rfl)
  | deactivateObject p o etherealize cleanup => cases hk
  | release o => cases hk
  | unlock p => cases hk
  | request c => cases hk
  | endUse c => cases hk
  | deactivate p etherealize caller => cases hk
  | traverse p rest inUse etherealize caller => cases hk
  | destroy p etherealize => cases hk
  | destroyChildren p etherealize i => cases hk
  | destroyEnd p wait => cases hk

/-- The next task of a thread comes out of its place. -/
theorem perm_of_nextTask {α : Type} {t : Nat} {k : α} {tasks rest : List (Nat × α)}
    (h : nextTask t tasks = some (k, rest)) : tasks.Perm ((t, k) :: rest) := by
  induction tasks generalizing rest with
  | nil => cases h
  | cons head tail ih =>
    obtain ⟨u, k'⟩ := head
    unfold nextTask at h
    split at h
    · rename_i hu
      cases h
      rw [hu]
    · obtain ⟨⟨k₁, rest₁⟩, hnext, heq⟩ := Option.map_eq_some_iff.mp h
      cases heq
      exact ((ih hnext).cons _).trans (.swap _ _ _)

theorem requestUses_perm (o : Nat) (h : ts.Perm ks) : requestUses o ts = requestUses o ks :=
  (h.map _).sum_nat

theorem finalUses_perm (o : Nat) (h : ts.Perm ks) : finalUses o ts = finalUses o ks :=
  (h.map _).sum_nat

theorem Kept.perm (h : Kept w past s ts) (hp : ts.Perm ks) : Kept w past s ks :=
  h.tasks (fun o => (requestUses_perm o hp).symm) (fun o => (finalUses_perm o hp).symm)

theorem Past.Current.perm (h : past.Current ts) (hp : ts.Perm ks) : past.Current ks :=
  fun o ho => h o ((requestUses_perm o hp).trans ho)

/-- The tasks of a thread and the rest, behind a step. -/
theorem Kept.push {t : Nat} {rest : List (Nat × Task)} (h : Kept w past s (ks ++ rest.map (·.2))) :
    Kept w past (s.push t ks rest) (s.push t ks rest).pending := by
  have hp : (s.push t ks rest).pending = ks ++ rest.map (·.2) := by
    simp [State.push, State.pending, Function.comp_def]
  rw [hp]
  exact h.congr rfl rfl rfl fun _ => ⟨rfl, rfl⟩

/-- The POA of an operation is there. -/
theorem State.Can.created {t : Nat} {op : Operation} (h : s.Can w t op) :
    ∀ p ∈ op.poa, (s.poas p).created = true := by
  intro p hp
  cases op with
  | createPOA q => cases hp
  | incoming q oid opname =>
    cases hp
    exact h.2.1
  | _ => exact h.2 p hp

theorem Kept.execute {e : Event} (h : Kept w past s s.pending) (hcur : past.Current s.pending)
    (hd : s.Careful w e) (hr : s.execute w e = .ok s') : Kept w past s' s'.pending := by
  cases e with
  | call t op =>
    unfold State.execute at hr
    dsimp only at hr
    split at hr
    · rename_i hcan
      obtain ⟨⟨s₁, ks, r⟩, hs₁, hr⟩ := Outcomes.of_bind hr
      cases hr
      exact (h.perform hcur hcan.created hd hs₁).push
    · cases hr
      exact h
  | run t =>
    unfold State.execute at hr
    dsimp only at hr
    split at hr
    · rename_i k rest hnext
      have hp := (perm_of_nextTask hnext).map (·.2)
      split at hr
      · cases hr
        exact h
      · rename_i hk
        obtain ⟨⟨s₁, ks⟩, hs₁, hr⟩ := Outcomes.of_bind hr
        cases hr
        have hdk : s.CarefulTask w k := hd k (by simp [hnext])
        exact ((h.perm hp).runTask (hcur.perm hp) (by simpa using hk) hdk hs₁).push
    · cases hr
      exact h
  | answer t r =>
    unfold State.execute at hr
    dsimp only at hr
    split at hr
    · rename_i k rest hnext
      have hp := (perm_of_nextTask hnext).map (·.2)
      split at hr
      · rename_i hk
        obtain ⟨⟨s₁, ks⟩, hs₁, hr⟩ := Outcomes.of_bind hr
        cases hr
        have hdk : s.CarefulAnswer w r k := hd k (by simp [hnext])
        exact ((h.perm hp).resumeTask (hcur.perm hp) hk hdk hs₁).push
      · cases hr
        exact h
    · cases hr
      exact h

theorem Kept.step {e : Event} (h : Kept w past s s.pending) (hcur : past.Current s.pending)
    (hd : s.Careful w e) : Kept w past (s.step w e) (s.step w e).pending := by
  unfold State.step
  split
  · exact h
  · split
    · rename_i s₁ hs₁
      exact h.execute hcur hd hs₁
    · exact h
    · exact h.congr rfl rfl rfl fun _ => ⟨rfl, rfl⟩

/-- The invariant between two steps: nothing need be known of the past. -/
def State.Sound (w : World) (s : State) : Prop := Kept w (fun _ => none) s s.pending

theorem State.past_eq_some {o servant : Nat} {asked : Bool}
    (h : s.past w o = some (servant, asked)) :
    ∃ x, s.objects o = some x ∧ (w.policies x.poa).retain = true ∧ 0 < s.requests o ∧
      x.servant = some servant ∧ x.life.deactivateDo = asked := by
  unfold State.past at h
  split at h
  · rename_i x hx
    split at h
    · rename_i hg
      obtain ⟨sv, hsv, heq⟩ := Option.map_eq_some_iff.mp h
      cases heq
      exact ⟨x, hx, hg.1, hg.2, hsv, rfl⟩
    · cases h
  · cases h

theorem State.Sound.withPast (h : s.Sound w) : Kept w (s.past w) s s.pending where
  accepted := h.accepted
  created := h.created
  bound := h.bound
  fresh := h.fresh
  listed := h.listed
  nodup := h.nodup
  unique := h.unique
  entries := h.entries
  live := h.live
  uses := h.uses
  retained o x hx hne := by
    obtain ⟨⟨sv, asked⟩, hv⟩ := Option.ne_none_iff_exists'.mp hne
    obtain ⟨y, hy, hre, -⟩ := State.past_eq_some hv
    cases hx.symm.trans hy
    exact hre
  kept o sv asked hs _ := by
    obtain ⟨x, hx, -, -, hsv, -⟩ := State.past_eq_some hs
    exact ⟨x, hx, hsv⟩
  asked o x sv hx hs _ := by
    obtain ⟨y, hy, -, -, -, hdo⟩ := State.past_eq_some hs
    cases hx.symm.trans hy
    exact hdo

theorem State.past_current (s : State) : (s.past w).Current s.pending := by
  intro o ho
  unfold State.past State.requests
  rw [ho]
  split
  · exact if_neg (by simp)
  · rfl

theorem State.Sound.kept_step {e : Event} (h : s.Sound w) (hd : s.Careful w e) :
    Kept w (s.past w) (s.step w e) (s.step w e).pending :=
  h.withPast.step s.past_current hd

theorem State.Sound.step {e : Event} (h : s.Sound w) (hd : s.Careful w e) :
    (s.step w e).Sound w :=
  (h.kept_step hd).forget fun _ _ hv => by cases hv

theorem State.Sound.servantsKept {e : Event} (h : s.Sound w) (hd : s.Careful w e) :
    s.ServantsKept w (s.step w e) := by
  have h' := h.kept_step hd
  intro o x servant hx hre hsv hpos
  have hpast : s.past w o = some (servant, x.life.deactivateDo) := by
    unfold State.past
    simp [hx, hre, hpos, hsv]
  constructor
  · intro hpos'
    obtain ⟨x', hx', hsv'⟩ := h'.kept o servant _ hpast hpos'
    exact ⟨x', hx', hsv', fun hdo => h'.asked o x' servant hx' (hdo ▸ hpast) hsv'⟩
  · intro h0 hdo x' hx' hsv'
    have hdo' := h'.asked o x' servant hx' (hdo ▸ hpast) hsv'
    have hu := h'.uses o x' hx' (h'.retained o x' hx' (by simp [hpast]))
    have hcount := hu.count
    have hfinal := hu.final (by simp [hsv'])
    have hused := (hu.deferred hdo').1
    unfold State.requests at h0
    omega

theorem State.Sound.activeObjectMap (h : s.Sound w) : s.ActiveObjectMap w where
  linked servant o := by
    have hmem : o ∈ s.privates servant ↔ (s.objects o).bind (·.servant) = some servant := by
      rw [h.listed servant o, Option.bind_eq_some_iff]
    rw [(h.nodup servant).count]
    simp only [hmem]
  unique := h.unique
  used o x hx hre := by
    have hu := h.uses o x hx hre
    refine ⟨hu.count, fun hpos hnone => ?_, hu.final⟩
    have := hu.active hnone
    unfold State.requests at hpos
    omega
  deferred o x hx hre hdo := ((h.uses o x hx hre).deferred hdo).1
  entries p e he := by
    obtain ⟨heq, x, hx, hp⟩ := h.entries p e he
    obtain ⟨oid, hoid⟩ := Option.ne_none_iff_exists'.mp (h.live e.2 x hx).1
    refine ⟨x, oid, hx, hp, hoid, ?_⟩
    unfold State.key
    rw [heq, hx]
    exact hoid

theorem State.sound_init (w : World) : State.init.Sound w := by
  constructor <;> simp [State.init, POA.init, State.pending, requestUses, finalUses]

/-- In every run of careful steps the active object map is in order in every state, and every
step keeps the servants in use. -/
theorem activeObjectMap_of_careful (w : World) (es : List Event)
    (h : Runs.Meets (State.step w) (State.Careful w) .init es) :
    Runs.Always (State.step w) (State.ActiveObjectMap w) .init es ∧
    Runs.Meets (State.step w) (fun s e => s.ServantsKept w (s.step w e)) .init es := by
  have hrun : Runs.Always (State.step w) (State.Sound w) .init es :=
    h.always (fun s e hs hc => State.Sound.step hs hc) (State.sound_init w)
  exact ⟨hrun.imp fun s hs => State.Sound.activeObjectMap hs,
    h.imp (fun s e hs hc => State.Sound.step hs hc)
      (fun s e hs hc => State.Sound.servantsKept hs hc) (State.sound_init w)⟩

end

/-- One POA with its own ids and implicit activation, and no other thread. -/
def loneWorld : World where
  threadSafe := false
  threadIo := false
  endian := .little
  policies := fun _ => ⟨true, true, true, true, true, .activeObjectMapOnly⟩
  manager := fun _ => 0
  parent := fun _ => none
  classInfo := fun _ => ⟨[], fun _ => true, fun _ => false, true⟩

/-- An object is deactivated during a request: its servant goes behind it. -/
def deactivatedInUse : List Event :=
  [.call 0 (.createPOA 0), .call 0 (.managerActivate 0),
    .call 0 (.servantToReference 0 (some 7) [1, 2, 3, 4]), .call 0 (.invoke 0 3), .run 0,
    .call 0 (.deactivateObject 0 [1, 0, 0, 0, 1, 2, 3, 4]), .run 0, .run 0, .run 0,
    .answer 0 ⟨none, 0, false⟩, .run 0, .run 0, .answer 0 ⟨none, 0, false⟩, .run 0]

theorem activeObjectMap_deactivatedInUse :
    Runs.Meets (State.step loneWorld) (State.Careful loneWorld) .init deactivatedInUse ∧
    Runs.Always (State.step loneWorld) (State.ActiveObjectMap loneWorld) .init deactivatedInUse :=
  ⟨by decide, (activeObjectMap_of_careful loneWorld deactivatedInUse (by decide)).1⟩

/-- Two objects, and the POA is destroyed: the servant of the first one has been finalized when
that of the second is. -/
def destroyedWithTwo : List Event :=
  [.call 0 (.createPOA 0), .call 0 (.managerActivate 0),
    .call 0 (.activateObject 0 7 [1, 2, 3, 4]), .call 0 (.activateObject 0 8 [1, 2, 3, 4]),
    .call 0 (.destroy 0 true false), .run 0, .run 0, .run 0, .run 0, .run 0, .run 0,
    .answer 0 ⟨none, 0, false⟩, .run 0, .run 0]

/-- The finalizer of the second servant finds an entry whose key is gone. -/
theorem not_activeObjectMap_destroyedWithTwo :
    ¬ State.ActiveObjectMap loneWorld (State.run loneWorld destroyedWithTwo) := by
  intro h
  have hdead : ∃ e ∈ ((State.run loneWorld destroyedWithTwo).poas 0).map,
      (State.run loneWorld destroyedWithTwo).key e = none := by decide
  obtain ⟨e, he, hkey⟩ := hdead
  obtain ⟨x, oid, -, -, -, hoid⟩ := h.entries 0 e he
  rw [hkey] at hoid
  cases hoid

end ORBit2.PortableServer
