import ORBit2.PoaInvariant

/-! Every piece of work of the POA keeps the invariant, as long as a few things are avoided. -/

set_option autoImplicit false

namespace ORBit2.PortableServer

section
variable {w : World} {past : Past} {s s' s₀ : State} {ts ks : List Task} {o p q : Nat}
variable {x x₀ : POAObject}

theorem State.setObject_setObject (s : State) (o : Nat) (x x' : POAObject) :
    (s.setObject o x).setObject o x' = s.setObject o x' := by
  unfold State.setObject
  simp

theorem State.setObject_self (h : s.objects o = some x) : s.setObject o x = s := by
  unfold State.setObject
  rw [← h, Function.update_eq_self]

theorem State.object_setObject (s : State) (o : Nat) (x : POAObject) :
    (s.setObject o x).object o = .ok x := by
  unfold State.object
  simp

/-- The objects behind a change at one of them. -/
theorem State.of_mem_setObject {P : POAObject → Prop} {y : POAObject} (hy : y ∈ (s.setObject o x).objects o)
    (h : P x) : P y := by
  simp only [State.setObject_objects, if_true, Option.mem_some_iff] at hy
  exact hy ▸ h

/-- A deactivation that calls the application before it gives the reference back. -/
def POAObject.CallsOut (w : World) (x : POAObject) (servant : Nat) : Prop :=
  x.life.doEtherealize = true ∧
  ((w.policies x.poa).processing = .servantManager ∨ (w.classInfo servant).finalizes = true)

instance (w : World) (x : POAObject) (servant : Nat) : Decidable (x.CallsOut w servant) := by
  unfold POAObject.CallsOut; infer_instance

/-- A deactivation that finds a servant which is not in use, and makes no call, gives a reference
back. -/
def State.Deactivatable (w : World) (s : State) (x : POAObject) (etherealize cleanup : Bool) : Prop :=
  ∀ servant ∈ x.servant, x.useCnt = 0 →
    ¬ POAObject.CallsOut w { x with life := x.life.ask etherealize cleanup } servant → s.Droppable x

instance (w : World) (s : State) (x : POAObject) (etherealize cleanup : Bool) :
    Decidable (s.Deactivatable w x etherealize cleanup) := by
  unfold State.Deactivatable; infer_instance

/-- So does the end of a request under NON_RETAIN. -/
def State.Returnable (w : World) (s : State) (x : POAObject) : Prop :=
  (w.policies x.poa).retain = false →
    ((w.policies x.poa).processing = .servantManager → s.Droppable x) ∧
    s.Deactivatable w x false false

instance (w : World) (s : State) (x : POAObject) : Decidable (s.Returnable w x) := by
  unfold State.Returnable; infer_instance

/-- There is room in the use count for one more request, and one that its servant does not
implement can end at once. -/
def State.Usable (w : World) (s : State) (c : Call) (x : POAObject) : Prop :=
  x.useCnt + 1 < useCntMod ∧
  ∀ servant ∈ x.servant, (w.classInfo servant).implements c.opname = false →
    (w.policies x.poa).retain = false → (w.policies x.poa).processing = .servantManager →
    s.Droppable x

instance (w : World) (s : State) (c : Call) (x : POAObject) : Decidable (s.Usable w c x) := by
  unfold State.Usable; infer_instance

/-- The object has no servant, and is not about to lose one. -/
def POAObject.Vacant (w : World) (x : POAObject) : Prop :=
  x.servant = none ∧ ((w.policies x.poa).retain = true → x.useCnt = 0)

instance (w : World) (x : POAObject) : Decidable (x.Vacant w) := by
  unfold POAObject.Vacant; infer_instance

/-- A `guint16` that is not 0, less one. -/
theorem useCnt_pred {n : Nat} (h : n + 1 < useCntMod) :
    (n + 1 + (useCntMod - 1)) % useCntMod = n := by
  rw [show useCntMod = 65536 from rfl] at *
  omega

theorem finalUses_finalize {servant : Nat} {raised : Bool} :
    finalUses o (.finalize p o servant raised :: ts) = 1 + finalUses o ts := by
  simp [Task.finalUse]

/-- A task that finalizes an object changes the uses of no other one. -/
theorem uses_finalize {o' servant : Nat} {raised : Bool} (ho : o' ≠ o) :
    requestUses o' (.finalize p o servant raised :: ts) = requestUses o' ts ∧
      finalUses o' (.finalize p o servant raised :: ts) = finalUses o' ts := by
  simp [Task.requestUse, Task.finalUse, Ne.symm ho]

/-- The flags are cleared and the servant's reference is given back. -/
theorem Kept.endDeactivate {y : POAObject} (h : Kept w past s ts) (hx : s.objects o = some x)
    (hp : y.poa = x.poa) (hid : y.objectId = x.objectId) (hsv : y.servant = x.servant)
    (hl : y.life.destroyed = x.life.destroyed) (hd : s.Droppable y)
    (hts : ∀ o', o' ≠ o → requestUses o' ks = requestUses o' ts ∧ finalUses o' ks = finalUses o' ts)
    (hu : (w.policies x.poa).retain = true → y.useCnt = requestUses o ks + finalUses o ks ∧
      y.useCnt < useCntMod ∧ (y.servant = none → requestUses o ks = 0) ∧
      (y.servant ≠ none → finalUses o ks = 0))
    (hpast : past o ≠ none → y.servant = none)
    (hr : (s.setObject o y).endDeactivateObject o = .ok s') : Kept w past s' ks := by
  unfold State.endDeactivateObject at hr
  rw [State.object_setObject, Outcomes.ok_bind, State.setObject_setObject] at hr
  have h' : Kept w past (s.setObject o { y with life := y.life.clear }) ks := by
    refine h.setObject hx hp hid hsv hl hts (fun hre => ?_) fun hne => .inl (hpast hne)
    obtain ⟨hc, hs, ha, hf⟩ := hu hre
    exact ⟨hc, hs, ha, hf, fun hdo => by cases hdo⟩
  exact h'.release (fun z hz => State.of_mem_setObject hz hd) hr

/-- The servant is finalized. -/
theorem Kept.endEtherealize {servant : Nat} {raised raised' : Bool}
    (h : Kept w past s (.finalize p o servant raised' :: ts)) (hd : ∀ x ∈ s.objects o, s.Droppable x)
    (hr : s.endEtherealize o raised = .ok s') : Kept w past s' ts := by
  unfold State.endEtherealize at hr
  obtain ⟨x, hx, hr⟩ := Outcomes.of_bind hr
  have hx := State.object_ok hx
  obtain ⟨-, hr⟩ := Outcomes.of_guard hr
  refine h.endDeactivate (y := { x with useCnt := (x.useCnt + (useCntMod - 1)) % useCntMod })
    hx rfl rfl rfl rfl (fun hde => hd x hx hde) ?_ ?_ ?_ hr
  · intro o' ho'
    have hu : requestUses o' (.finalize p o servant raised' :: ts) = requestUses o' ts ∧
        finalUses o' (.finalize p o servant raised' :: ts) = finalUses o' ts := uses_finalize ho'
    exact ⟨hu.1.symm, hu.2.symm⟩
  · intro hre
    have hu := h.uses o x hx hre
    have hcount := hu.count
    have hfinal := hu.final
    rw [finalUses_finalize] at hcount hfinal
    have hpred := useCnt_pred (n := requestUses o ts + finalUses o ts) (by
      have := hu.small
      rw [hcount] at this
      simp only [requestUses_cons, Task.requestUse] at this
      omega)
    have heq : x.useCnt = requestUses o ts + finalUses o ts + 1 := by
      simp only [requestUses_cons, Task.requestUse] at hcount
      omega
    have hsmall := hu.small
    refine ⟨by simp only [heq, hpred], by simp only [heq, hpred]; omega, ?_, fun hs => ?_⟩
    · simpa [Task.requestUse] using hu.active
    · have := hfinal hs
      omega
  · intro hne
    by_contra hs
    have := (h.uses o x hx (h.retained o x hx hne)).final hs
    rw [finalUses_finalize] at this
    omega

theorem Kept.callFinalize {servant : Nat} {raised raised' : Bool}
    (h : Kept w past s (.finalize p o servant raised' :: ts))
    (hd : (w.classInfo servant).finalizes = false → ∀ x ∈ s.objects o, s.Droppable x)
    (hr : s.callFinalize w p o servant raised = .ok (s', ks)) : Kept w past s' (ks ++ ts) := by
  unfold State.callFinalize at hr
  split at hr
  · cases hr
    exact h.unlock.tasks (fun _ => rfl) (fun _ => rfl)
  · rename_i hfin
    obtain ⟨s₁, hs₁, hr⟩ := Outcomes.of_bind hr
    cases hr
    exact h.endEtherealize (hd (by simpa using hfin)) hs₁

/-- Objects that differ in their flags only. -/
structure SameButFlags (w : World) (x x₀ : POAObject) : Prop where
  poa : x.poa = x₀.poa
  objectId : x.objectId = x₀.objectId
  servant : x.servant = x₀.servant
  useCnt : x.useCnt = x₀.useCnt
  destroyed : x.life.destroyed = x₀.life.destroyed
  deferred : (w.policies x₀.poa).retain = true → x.life.deactivateDo = true →
    x.life.needPostInvoke = true
  asked : x₀.life.deactivateDo = true → x.life.deactivateDo = true

theorem SameButFlags.refl (h : Kept w past s ts) (hx : s.objects o = some x) : SameButFlags w x x where
  poa := rfl
  objectId := rfl
  servant := rfl
  useCnt := rfl
  destroyed := rfl
  deferred hre hdo := ((h.uses o x hx hre).deferred hdo).2
  asked := id

/-- An object off its list is etherealized, or finished with at once. The flags are those of
`x`, the invariant that of a state with other flags. -/
theorem Kept.etherealizeObject {servant : Nat} (h : Kept w past s₀ ts) (hx₀ : s₀.objects o = some x₀)
    (hx : SameButFlags w x x₀) (hsv : x₀.servant = none)
    (hc : (w.policies x₀.poa).retain = true → x₀.useCnt = 0)
    (hd : ¬ x.CallsOut w servant → s₀.Droppable x)
    (hr : (s₀.setObject o x).etherealizeObject w p o servant = .ok (s', ks)) :
    Kept w past s' (ks ++ ts) := by
  have hu : (w.policies x₀.poa).retain = true →
      requestUses o ts = 0 ∧ finalUses o ts = 0 ∧ x.useCnt = 0 := by
    intro hre
    have hcount := (h.uses o x₀ hx₀ hre).count
    have h0 := hc hre
    have hux := hx.useCnt
    omega
  unfold State.etherealizeObject at hr
  rw [State.object_setObject, Outcomes.ok_bind, State.setObject_setObject] at hr
  split at hr
  · rename_i heth
    have hfin : Kept w past (s₀.setObject o { x with useCnt := x.useCnt + 1 })
        (.finalize p o servant false :: ts) := by
      refine h.setObject hx₀ hx.poa hx.objectId hx.servant hx.destroyed
        (fun o' ho' => uses_finalize ho') (fun hre => ?_) fun _ => .inl (hx.servant.trans hsv)
      obtain ⟨hreq, hfin, hcnt⟩ := hu hre
      constructor
      · simp [Task.requestUse, Task.finalUse, hreq, hfin, hcnt]
      · simp [hcnt, useCntMod]
      · simp [Task.requestUse, hreq]
      · simp [hx.servant, hsv]
      · intro hdo
        exact ⟨by simp, hx.deferred hre hdo⟩
    dsimp only at hr
    split at hr
    · split at hr
      · cases hr
        exact hfin.tasks (fun _ => rfl) (fun _ => rfl)
      · cases hr
    · rename_i hproc
      refine hfin.callFinalize (fun hf y hy => State.of_mem_setObject hy (hd ?_)) hr
      rintro ⟨-, hp | hp⟩
      · exact hproc hp
      · rw [hf] at hp
        cases hp
  · rename_i heth
    obtain ⟨s₁, hs₁, hr⟩ := Outcomes.of_bind hr
    cases hr
    refine h.endDeactivate hx₀ hx.poa hx.objectId hx.servant hx.destroyed
      (hd fun hcall => heth hcall.1) (fun _ _ => ⟨rfl, rfl⟩) (fun hre => ?_)
      (fun _ => hx.servant.trans hsv) hs₁
    obtain ⟨hreq, hfin, hcnt⟩ := hu hre
    simp [hreq, hfin, hcnt, useCntMod]

theorem State.unlink_setObject (z : POAObject) {y : POAObject} {servant : Nat}
    (hr : (s₀.setObject o x).unlink o y servant = .ok s') :
    ∃ t, s₀.unlink o z servant = .ok t ∧ s' = t.setObject o { y with servant := none } ∧
      t.objects o = some { z with servant := none } ∧ t.poas = s₀.poas := by
  unfold State.unlink at hr ⊢
  rw [State.setObject_setObject] at hr
  split at hr
  · rename_i hm
    cases hr
    refine ⟨_, if_pos hm, ?_, ?_, rfl⟩
    · unfold State.setObject
      simp
    · exact (State.setObject_objects s₀ o o _).trans (if_pos rfl)
  · cases hr

/-- The object may have been asked to deactivate as soon as it is no longer used. -/
theorem Kept.deactivateObject {etherealize cleanup : Bool} (h : Kept w past s₀ ts)
    (hx₀ : s₀.objects o = some x₀) (hx : SameButFlags w x x₀)
    (h0 : x.servant = none → (w.policies x₀.poa).retain = true → x.life = x₀.life)
    (hd : s₀.Deactivatable w x etherealize cleanup)
    (hr : (s₀.setObject o x).deactivateObject w p o etherealize cleanup = .ok (s', ks)) :
    Kept w past s' (ks ++ ts) := by
  unfold State.deactivateObject at hr
  rw [State.object_setObject, Outcomes.ok_bind] at hr
  split at hr
  · rename_i hnone
    cases hr
    exact h.setObject hx₀ hx.poa hx.objectId hx.servant hx.destroyed (fun _ _ => ⟨rfl, rfl⟩)
      (fun hre => (h.uses o x₀ hx₀ hre).congr hx.useCnt hx.servant (h0 hnone hre))
      fun _ => .inl hnone
  · rename_i servant hsome
    have hsome₀ : x₀.servant = some servant := hx.servant.symm.trans hsome
    dsimp only at hr
    split at hr
    · rename_i hpos
      rw [State.setObject_setObject] at hr
      cases hr
      refine h.setObject hx₀ hx.poa hx.objectId hx.servant hx.destroyed (fun _ _ => ⟨rfl, rfl⟩)
        (fun hre => ?_) fun _ => .inr ⟨id, fun _ => rfl⟩
      have hu := h.uses o x₀ hx₀ hre
      constructor
      · simpa [hx.useCnt] using hu.count
      · simpa [hx.useCnt] using hu.small
      · simpa [hx.servant] using hu.active
      · simpa [hx.servant] using hu.final
      · exact fun _ => ⟨hpos, rfl⟩
    · rename_i hzero
      obtain ⟨s₁, hs₁, hr⟩ := Outcomes.of_bind hr
      obtain ⟨t, ht, rfl, htx, htp⟩ := State.unlink_setObject x₀ hs₁
      have hc : x₀.useCnt = 0 := by
        have := hx.useCnt
        omega
      have hkept : Kept w past t ts := by
        refine h.unlink hx₀ rfl rfl rfl hsome₀ (fun hre => ?_) ht
        have hu := h.uses o x₀ hx₀ hre
        have hcount := hu.count
        constructor
        · exact hcount
        · exact hu.small
        · intro _
          omega
        · simp
        · exact hu.deferred
      refine hkept.etherealizeObject htx ⟨?_, ?_, ?_, ?_, ?_, ?_, ?_⟩ rfl (fun _ => hc) ?_ hr
      · exact hx.poa
      · exact hx.objectId
      · rfl
      · exact hx.useCnt
      · exact hx.destroyed
      · exact hx.deferred
      · exact hx.asked
      · intro hcall
        have hdrop : s₀.Droppable x := hd servant hsome (by omega) hcall
        intro hde
        exact hdrop (by rwa [htp] at hde)

theorem Kept.deactivateObject_self {etherealize cleanup : Bool} (h : Kept w past s ts)
    (hd : ∀ x ∈ s.objects o, s.Deactivatable w x etherealize cleanup)
    (hr : s.deactivateObject w p o etherealize cleanup = .ok (s', ks)) : Kept w past s' (ks ++ ts) := by
  cases hx : s.objects o with
  | none =>
    unfold State.deactivateObject State.object at hr
    rw [hx] at hr
    cases hr
  | some x =>
    rw [← State.setObject_self hx] at hr
    exact h.deactivateObject hx (.refl h hx) (fun _ _ => rfl) (hd x hx) hr

theorem Kept.unuse {c : Call} {cookie : Nat} (h : Kept w past s ts)
    (hd : ∀ x ∈ s.objects c.object, s.Returnable w x) (hr : s.unuse w c cookie = .ok (s', ks)) :
    Kept w past s' (ks ++ ts) := by
  unfold State.unuse at hr
  obtain ⟨x, hx, hr⟩ := Outcomes.of_bind hr
  have hx := State.object_ok hx
  have hd := hd x hx
  split at hr
  · cases hr
    exact h
  · rename_i hre
    obtain ⟨hmgr, hdef⟩ := hd (by simpa using hre)
    split at hr
    · rename_i hproc
      unfold State.unuseServant at hr
      obtain ⟨y, hy, hr⟩ := Outcomes.of_bind hr
      cases hx.symm.trans (State.object_ok hy)
      obtain ⟨-, hr⟩ := Outcomes.of_guard hr
      split at hr
      · cases hr
      · rename_i servant hsv
        obtain ⟨s₁, hs₁, hr⟩ := Outcomes.of_bind hr
        obtain ⟨s₂, hs₂, hr⟩ := Outcomes.of_bind hr
        have h₁ := h.unlink hx rfl rfl rfl hsv (fun hre' => absurd hre' hre) hs₁
        have hd₁ : ∀ z ∈ s₁.objects c.object, s₁.Droppable z := by
          rw [← State.setObject_self hx] at hs₁
          obtain ⟨t, -, rfl, -, htp⟩ := State.unlink_setObject x hs₁
          intro z hz
          refine State.of_mem_setObject hz fun hde => hmgr hproc ?_
          simpa [htp] using hde
        have h₂ := h₁.release hd₁ hs₂
        obtain ⟨z, -, hr⟩ := Outcomes.of_bind hr
        split at hr
        · cases hr
        · cases hr
          exact h₂.frame (fun o => by simp [Task.requestUse]) (fun o => by simp [Task.finalUse])
            rfl rfl rfl fun _ => ⟨rfl, rfl⟩
    · refine h.deactivateObject_self (fun y hy => ?_) hr
      cases hx.symm.trans hy
      exact hdef
    · cases hr

theorem Kept.endRequest {c : Call} {cookie : Nat} (h : Kept w past s (.endUse c :: ts))
    (hd : ∀ x ∈ s.objects c.object, s.Returnable w x)
    (hr : s.endRequest w c cookie = .ok (s', ks)) :
    Kept w past s' (ks ++ ts) := by
  unfold State.endRequest at hr
  obtain ⟨⟨s₁, tasks⟩, hs₁, hr⟩ := Outcomes.of_bind hr
  cases hr
  have h₁ := h.unuse hd hs₁
  refine h₁.tasks (fun o => ?_) (fun o => ?_)
  · simp [Task.requestUse]
  · simp [Task.finalUse]

theorem Kept.dispatch {c : Call} {cookie : Nat} (h : Kept w past s ts) (hcur : past.Current ts)
    (hd : ∀ x ∈ s.objects c.object, s.Usable w c x) (hr : s.dispatch w c cookie = .ok (s', ks)) :
    Kept w past s' (ks ++ ts) := by
  unfold State.dispatch at hr
  obtain ⟨x, hx, hr⟩ := Outcomes.of_bind hr
  have hx := State.object_ok hx
  obtain ⟨hroom, hend⟩ := hd x hx
  have hmod := Nat.mod_eq_of_lt hroom
  split at hr
  · cases hr
  · rename_i servant hsv
    rw [hmod] at hr
    have h₁ : Kept w past { s.setObject c.object { x with useCnt := x.useCnt + 1 } with
        invocations := c.object :: s.invocations } (.endUse c :: ts) := by
      have hbase : Kept w past (s.setObject c.object { x with useCnt := x.useCnt + 1 })
          (.endUse c :: ts) := by
        refine h.setObject hx rfl rfl rfl rfl ?_ ?_ fun hne => .inr ⟨fun _ => ?_, id⟩
        · intro o' ho'
          simp [Task.requestUse, Task.finalUse, Ne.symm ho']
        · intro hre
          have hu := h.uses _ x hx hre
          have hcount := hu.count
          constructor
          · simp [Task.requestUse, Task.finalUse]
            omega
          · exact hroom
          · simp [hsv]
          · simpa [Task.finalUse] using hu.final
          · intro hdo
            exact ⟨by simp, (hu.deferred hdo).2⟩
        · exact Nat.pos_of_ne_zero fun h0 => hne (hcur c.object h0)
      exact hbase.congr rfl rfl rfl fun _ => ⟨rfl, rfl⟩
    dsimp only at hr
    split at hr
    · cases hr
      have h₂ : Kept w past _ (.endUse c :: ts) := h₁.unlock (p := c.poa)
      exact h₂.frame (fun _ => rfl) (fun _ => rfl) rfl rfl rfl fun _ => ⟨rfl, rfl⟩
    · rename_i himp
      refine h₁.endRequest (fun y hy => State.of_mem_setObject hy fun hre => ⟨?_, ?_⟩) hr
      · exact hend servant hsv (by simpa using himp) hre
      · intro _ _ h0
        simp at h0

/-- Behind the search for a servant. -/
theorem Kept.served {c : Call} {cookie : Nat} {raised : Bool} (h : Kept w past s ts)
    (hcur : past.Current ts) (hd : raised = false → ∀ x ∈ s.objects c.object, s.Usable w c x)
    (hr : s.served w c cookie raised = .ok (s', ks)) : Kept w past s' (ks ++ ts) := by
  unfold State.served at hr
  obtain ⟨x, -, hr⟩ := Outcomes.of_bind hr
  split at hr
  · rename_i hg
    exact h.dispatch hcur (hd hg.1) hr
  · cases hr
    exact h.unlock

/-- The end of a use that was the last one deactivates the object if that was asked for. -/
def State.Endable (w : World) (s : State) (x : POAObject) : Prop :=
  x.life.deactivateDo = true →
    s.Deactivatable w { x with useCnt := (x.useCnt + (useCntMod - 1)) % useCntMod } false false

instance (w : World) (s : State) (x : POAObject) : Decidable (s.Endable w x) := by
  unfold State.Endable; infer_instance

/-- One request less uses the object. -/
theorem Used.pred {n m : Nat} (h : Used x (1 + n) m) :
    (x.useCnt + (useCntMod - 1)) % useCntMod = n + m ∧ n + m < useCntMod ∧ x.servant ≠ none ∧
      m = 0 := by
  have hcount := h.count
  have hsmall := h.small
  have hsv : x.servant ≠ none := by
    intro hn
    have := h.active hn
    omega
  have hpred := useCnt_pred (n := n + m) (by omega)
  rw [show x.useCnt = n + m + 1 by omega]
  exact ⟨hpred, by omega, hsv, h.final hsv⟩

/-- Less may be known of the past. -/
theorem Kept.forget {past' : Past} (h : Kept w past s ts)
    (hp : ∀ o v, past' o = some v → past o = some v) : Kept w past' s ts where
  accepted := h.accepted
  created := h.created
  bound := h.bound
  fresh := h.fresh
  listed := h.listed
  nodup := h.nodup
  unique := h.unique
  entries := h.entries
  live := h.live
  uses := h.uses
  retained o x hx hne := by
    obtain ⟨v, hv⟩ := Option.ne_none_iff_exists'.mp hne
    exact h.retained o x hx (by simp [hp o v hv])
  kept o sv asked hs := h.kept o sv asked (hp o _ hs)
  asked o x sv hx hs := h.asked o x sv hx (hp o _ hs)

/-- An object without a servant has nothing to keep. -/
theorem Kept.recall (h : Kept w (Function.update past o none) s ts)
    (hx : ∀ x ∈ s.objects o, x.servant = none ∧ (past o ≠ none → (w.policies x.poa).retain = true))
    (hu : past o ≠ none → requestUses o ts = 0) : Kept w past s ts where
  accepted := h.accepted
  created := h.created
  bound := h.bound
  fresh := h.fresh
  listed := h.listed
  nodup := h.nodup
  unique := h.unique
  entries := h.entries
  live := h.live
  uses := h.uses
  retained o' x hx' hne := by
    by_cases ho : o' = o
    · subst ho
      exact (hx x hx').2 hne
    · exact h.retained o' x hx' (by rwa [Function.update_of_ne ho])
  kept o' sv asked hs hpos := by
    by_cases ho : o' = o
    · subst ho
      have := hu (by simp [hs])
      omega
    · exact h.kept o' sv asked (by rwa [Function.update_of_ne ho]) hpos
  asked o' x sv hx' hs hsv := by
    by_cases ho : o' = o
    · subst ho
      rw [(hx x hx').1] at hsv
      cases hsv
    · exact h.asked o' x sv hx' (by rwa [Function.update_of_ne ho]) hsv

/-- The object has no servant, if it is still there. -/
def State.Idle (s : State) (o q : Nat) : Prop :=
  ∀ x ∈ s.objects o, x.servant = none ∧ x.poa = q

theorem State.Idle.setObject (hsv : x.servant = none) (hp : x.poa = q) :
    (s.setObject o x).Idle o q := by
  intro y hy
  simp only [State.setObject_objects, if_true, Option.mem_some_iff] at hy
  subst hy
  exact ⟨hsv, hp⟩

theorem State.Idle.release (hr : s.release o = .ok s') (h : s.Idle o q) : s'.Idle o q := by
  unfold State.release at hr
  obtain ⟨x, hx, hr⟩ := Outcomes.of_bind hr
  obtain ⟨hsv, hp⟩ := h x (State.object_ok hx)
  obtain ⟨-, hr⟩ := Outcomes.of_guard hr
  split at hr
  · unfold State.releaseCb at hr
    obtain ⟨-, hr⟩ := Outcomes.of_guard hr
    split at hr
    · cases hr
      exact State.Idle.setObject hsv hp
    · cases hr
      intro y hy
      simp at hy
  · cases hr
    exact State.Idle.setObject hsv hp

theorem State.Idle.endDeactivateObject (hr : s.endDeactivateObject o = .ok s')
    (h : s.Idle o q) : s'.Idle o q := by
  unfold State.endDeactivateObject at hr
  obtain ⟨x, hx, hr⟩ := Outcomes.of_bind hr
  obtain ⟨hsv, hp⟩ := h x (State.object_ok hx)
  exact State.Idle.release hr (State.Idle.setObject hsv hp)

theorem State.Idle.endEtherealize {raised : Bool} (hr : s.endEtherealize o raised = .ok s')
    (h : s.Idle o q) : s'.Idle o q := by
  unfold State.endEtherealize at hr
  obtain ⟨x, hx, hr⟩ := Outcomes.of_bind hr
  obtain ⟨-, hr⟩ := Outcomes.of_guard hr
  obtain ⟨hsv, hp⟩ := h x (State.object_ok hx)
  exact State.Idle.endDeactivateObject hr (State.Idle.setObject hsv hp)

theorem State.unlock_objects (s : State) (p : Nat) : (s.unlock w p).objects = s.objects := by
  unfold State.unlock
  split <;> rfl

theorem State.Idle.callFinalize {servant : Nat} {raised : Bool}
    (hr : s.callFinalize w p o servant raised = .ok (s', ks)) (h : s.Idle o q) : s'.Idle o q := by
  unfold State.callFinalize at hr
  split at hr
  · cases hr
    intro y hy
    rw [State.unlock_objects] at hy
    exact h y hy
  · obtain ⟨s₁, hs₁, hr⟩ := Outcomes.of_bind hr
    cases hr
    exact State.Idle.endEtherealize hs₁ h

theorem State.Idle.etherealizeObject {servant : Nat}
    (hr : s.etherealizeObject w p o servant = .ok (s', ks)) (h : s.Idle o q) : s'.Idle o q := by
  unfold State.etherealizeObject at hr
  obtain ⟨x, hx, hr⟩ := Outcomes.of_bind hr
  obtain ⟨hsv, hp⟩ := h x (State.object_ok hx)
  split at hr
  · have h' : (s.setObject o { x with useCnt := x.useCnt + 1 }).Idle o q :=
      State.Idle.setObject hsv hp
    dsimp only at hr
    split at hr
    · split at hr
      · cases hr
        exact h'
      · cases hr
    · exact State.Idle.callFinalize hr h'
  · obtain ⟨s₁, hs₁, hr⟩ := Outcomes.of_bind hr
    cases hr
    exact State.Idle.endDeactivateObject hs₁ h

/-- A deactivation of an object that is not in use takes its servant. -/
theorem State.idle_of_deactivateObject {etherealize cleanup : Bool} (hx : s.objects o = some x)
    (h0 : x.useCnt = 0) (hr : s.deactivateObject w p o etherealize cleanup = .ok (s', ks)) :
    s'.Idle o x.poa := by
  unfold State.deactivateObject at hr
  obtain ⟨y, hy, hr⟩ := Outcomes.of_bind hr
  cases hx.symm.trans (State.object_ok hy)
  split at hr
  · rename_i hnone
    cases hr
    intro y hy
    cases hx.symm.trans hy
    exact ⟨hnone, rfl⟩
  · dsimp only at hr
    rw [if_neg (by omega)] at hr
    obtain ⟨s₁, hs₁, hr⟩ := Outcomes.of_bind hr
    refine State.Idle.etherealizeObject hr ?_
    unfold State.unlink at hs₁
    split at hs₁
    · cases hs₁
      exact State.Idle.setObject rfl rfl
    · cases hs₁

/-- What a deactivation leaves to do uses no object as a request does. -/
theorem State.requestUses_deactivateObject {etherealize cleanup : Bool} {o' : Nat}
    (hr : s.deactivateObject w p o etherealize cleanup = .ok (s', ks)) : requestUses o' ks = 0 := by
  have hfin : ∀ {s : State} {servant : Nat} {raised : Bool},
      s.callFinalize w p o servant raised = .ok (s', ks) → requestUses o' ks = 0 := by
    intro s servant raised hr
    unfold State.callFinalize at hr
    split at hr
    · cases hr
      rfl
    · obtain ⟨s₁, -, hr⟩ := Outcomes.of_bind hr
      cases hr
      rfl
  unfold State.deactivateObject at hr
  obtain ⟨x, -, hr⟩ := Outcomes.of_bind hr
  split at hr
  · cases hr
    rfl
  · dsimp only at hr
    split at hr
    · cases hr
      rfl
    · obtain ⟨s₁, -, hr⟩ := Outcomes.of_bind hr
      unfold State.etherealizeObject at hr
      obtain ⟨y, -, hr⟩ := Outcomes.of_bind hr
      split at hr
      · dsimp only at hr
        split at hr
        · split at hr
          · cases hr
            rfl
          · cases hr
        · exact hfin hr
      · obtain ⟨s₂, -, hr⟩ := Outcomes.of_bind hr
        cases hr
        rfl

/-- One request less. The flags `life` may be those of the object or differ in `deactivateDo`. -/
theorem Kept.lessUse {c : Call} {n : Nat} (life : ObjectLife)
    (h : Kept w past s (.endUse c :: ts)) (hx : s.objects c.object = some x)
    (hn : (w.policies x.poa).retain = true →
      n = requestUses c.object ts + finalUses c.object ts ∧ n < useCntMod ∧ x.servant ≠ none ∧
        finalUses c.object ts = 0)
    (hdest : life.destroyed = x.life.destroyed)
    (hdefer : (w.policies x.poa).retain = true → life.deactivateDo = true →
      0 < n ∧ life.needPostInvoke = true)
    (hask : past c.object ≠ none → x.life.deactivateDo = true → life.deactivateDo = true) :
    Kept w past { s.setObject c.object { x with life, useCnt := n } with
      invocations := s.invocations.erase c.object } ts := by
  have hbase : Kept w past (s.setObject c.object { x with life, useCnt := n }) ts := by
    refine h.setObject hx rfl rfl rfl hdest ?_ (fun hre => ?_) fun hne => .inr ⟨?_, hask hne⟩
    · intro o' ho'
      simp [Task.requestUse, Task.finalUse, Ne.symm ho']
    · obtain ⟨hcount, hsmall, hsv, hm⟩ := hn hre
      exact ⟨hcount, hsmall, fun hnone => absurd hnone hsv, fun _ => hm, hdefer hre⟩
    · intro _
      simp [Task.requestUse]
  exact hbase.congr rfl rfl rfl fun _ => ⟨rfl, rfl⟩

theorem Kept.endUse {c : Call} (h : Kept w past s (.endUse c :: ts))
    (hd : ∀ x ∈ s.objects c.object, s.Endable w x) (hr : s.endUse w c = .ok (s', ks)) :
    Kept w past s' (ks ++ ts) := by
  unfold State.endUse at hr
  obtain ⟨x, hx, hr⟩ := Outcomes.of_bind hr
  have hx := State.object_ok hx
  have hd := hd x hx
  unfold State.Endable at hd
  have hu : (w.policies x.poa).retain = true →
      Used x (1 + requestUses c.object ts) (finalUses c.object ts) := by
    intro hre
    simpa [Task.requestUse, Task.finalUse] using h.uses _ x hx hre
  have hpost : (w.policies x.poa).retain = true → x.life.deactivateDo = true →
      x.life.needPostInvoke = true := fun hre hdo => ((hu hre).deferred hdo).2
  have hpred := fun hre => (hu hre).pred
  generalize (x.useCnt + (useCntMod - 1)) % useCntMod = n at hr hd hpred
  have hn : (w.policies x.poa).retain = true →
      n = requestUses c.object ts + finalUses c.object ts ∧ n < useCntMod ∧ x.servant ≠ none ∧
        finalUses c.object ts = 0 := by
    intro hre
    obtain ⟨hn, hlt, hrest⟩ := hpred hre
    exact ⟨hn, hn ▸ hlt, hrest⟩
  dsimp only at hr
  split at hr
  · unfold State.postInvoke at hr
    obtain ⟨y, hy, hr⟩ := Outcomes.of_bind hr
    have hxy : y = { x with useCnt := n } := by
      have hy := State.object_ok hy
      simpa using hy.symm
    subst hxy
    split at hr
    · rename_i hpos
      cases hr
      have := h.lessUse x.life hx hn rfl (fun hre hdo => ⟨hpos, hpost hre hdo⟩)
        fun _ => id
      exact this
    · rename_i hzero
      have hn0 : n = 0 := by simpa using hzero
      split at hr
      · rename_i hdo
        -- as if the deactivation had not been asked for before
        have hpast : ∀ o v, Function.update past c.object none o = some v → past o = some v := by
          intro o v hv
          by_cases ho : o = c.object
          · subst ho
            simp at hv
          · rwa [Function.update_of_ne ho] at hv
        have h₀ := (h.forget hpast).lessUse
          { x.life with deactivateDo := false } hx hn rfl
          (fun _ hf => by cases hf) (fun hne => by simp at hne)
        have hself : ({ s.setObject c.object { x with useCnt := n } with
              invocations := s.invocations.erase c.object } : State) =
            ({ s.setObject c.object { x with
                life := { x.life with deactivateDo := false }, useCnt := n } with
              invocations := s.invocations.erase c.object } : State).setObject c.object
                { x with useCnt := n } := by
          simp [State.setObject]
        have hidle := State.idle_of_deactivateObject (x := { x with useCnt := n }) (by simp) hn0 hr
        have hks : requestUses c.object ks = 0 := State.requestUses_deactivateObject hr
        rw [hself] at hr
        refine Kept.recall (o := c.object) (h₀.deactivateObject (x := { x with useCnt := n })
          (State.setObject_objects _ _ _ _ |>.trans (if_pos rfl))
          ⟨rfl, rfl, rfl, rfl, rfl, hpost, fun hf => by cases hf⟩ ?_ (hd hdo) hr) ?_ ?_
        · intro hnone hre
          exact absurd hnone (hn hre).2.2.1
        · intro y hy
          obtain ⟨hsv, hp⟩ := hidle y hy
          exact ⟨hsv, fun hne => hp ▸ h.retained c.object x hx hne⟩
        · intro hne
          obtain ⟨hcount, -⟩ := hn (h.retained c.object x hx hne)
          rw [requestUses_append, hks]
          omega
      · rename_i hdo
        cases hr
        have := h.lessUse x.life hx hn rfl (fun _ hdo' => absurd hdo' hdo) fun _ => id
        exact this
  · rename_i hneed
    cases hr
    have := h.lessUse x.life hx hn rfl
      (fun hre hdo => absurd (hpost hre hdo) hneed) fun _ => id
    exact this

theorem State.Droppable.lock (hd : s.Droppable x) (hl : s.lock w p = .ok s') : s'.Droppable x := by
  intro hde
  rw [State.lock_life hl] at hde
  exact hd hde

theorem State.Usable.lock {c : Call} (hd : s.Usable w c x) (hl : s.lock w p = .ok s') :
    s'.Usable w c x :=
  ⟨hd.1, fun sv hsv himp hre hproc => (hd.2 sv hsv himp hre hproc).lock hl⟩

theorem State.Returnable.lock (hd : s.Returnable w x) (hl : s.lock w p = .ok s') :
    s'.Returnable w x :=
  fun hre => ⟨fun hproc => ((hd hre).1 hproc).lock hl,
    fun sv hsv h0 hcall => ((hd hre).2 sv hsv h0 hcall).lock hl⟩

/-- An activation has found an object without a servant that is not in use. -/
theorem State.activateObject_ok {servant : Option Nat}
    (hr : s.activateObject w p o servant = .ok s') :
    ∃ x sv, s.objects o = some x ∧ x.servant = none ∧ x.useCnt = 0 ∧ servant = some sv ∧
      s' = s.link o { x with vepvmapCache := some (w.classInfo sv).vepvmap } sv := by
  unfold State.activateObject at hr
  obtain ⟨x, hx, hr⟩ := Outcomes.of_bind hr
  obtain ⟨hg, hr⟩ := Outcomes.of_guard hr
  simp only [not_or, not_not] at hg
  cases servant with
  | none => cases hr
  | some sv =>
    cases hr
    exact ⟨x, sv, State.object_ok hx, hg.1, hg.2.2, rfl, rfl⟩

theorem Kept.handleRequest {c : Call} (h : Kept w past s ts) (hcur : past.Current ts)
    (hd : ∀ x ∈ s.objects c.object, s.Usable w c x) (hr : s.handleRequest w c = .ok (s', ks)) :
    Kept w past s' (ks ++ ts) := by
  unfold State.handleRequest at hr
  obtain ⟨x, hx, hr⟩ := Outcomes.of_bind hr
  obtain ⟨s₁, hs₁, hr⟩ := Outcomes.of_bind hr
  have hx := State.object_ok hx
  have h₁ := h.lock hs₁
  have hobj := State.lock_objects hs₁
  have hd₁ : ∀ y ∈ s₁.objects c.object, s₁.Usable w c y := by
    intro y hy
    exact (hd y (hobj ▸ hy)).lock hs₁
  split at hr
  · cases hr
    split
    · have h₂ : Kept w past (s₁.setPoa x.poa fun poa => { poa with held := c.object :: poa.held }) ts :=
        h₁.setPoa (fun _ => rfl) (fun _ => rfl)
      exact h₂.unlock
    · exact h₁.unlock
  · cases hr
    exact h₁.unlock
  · cases hr
    exact h₁.unlock
  · split at hr
    · exact h₁.dispatch hcur hd₁ hr
    · split at hr
      · cases hr
        exact h₁.unlock
      · rename_i hproc
        obtain ⟨s₂, hs₂, hr⟩ := Outcomes.of_bind hr
        have h₂ : Kept w past s₂ ts := by
          refine h₁.activateObject ?_ hcur hs₂
          intro y hy hun
          rw [hobj, hx, Option.mem_some_iff] at hy
          subst hy
          have hacc := h.accepted x.poa (h.created c.object x hx)
          exact absurd ⟨hproc, hun⟩ hacc.2.1
        obtain ⟨y, sv, hy, -, h0, -, rfl⟩ := State.activateObject_ok hs₂
        rw [hobj, hx] at hy
        cases hy
        refine h₂.dispatch hcur (fun z hz => State.of_mem_setObject hz ⟨?_, ?_⟩) hr
        · simp [h0, useCntMod]
        · intro _ _ _ _ hp
          rw [hproc] at hp
          cases hp
      · split at hr
        · cases hr
          refine h₁.tasks (fun o => ?_) (fun o => ?_)
          · split <;> simp [Task.requestUse]
          · split <;> simp [Task.finalUse]
        · cases hr

/-- What an answer of the servant manager finds. -/
def State.Answerable (w : World) (s : State) (c : Call) (servant : Option Nat) (raised : Bool)
    (x : POAObject) : Prop :=
  (servant ≠ none → x.Vacant w) ∧
  (raised = false → s.Usable w c (match servant with
    | none => x
    | some sv => { x with servant := some sv, refs := x.refs + 1 }))

instance (w : World) (s : State) (c : Call) (servant : Option Nat) (raised : Bool)
    (x : POAObject) : Decidable (s.Answerable w c servant raised x) := by
  unfold State.Answerable; infer_instance

theorem Kept.useServant {c : Call} {servant : Option Nat} {raised raised' : Bool}
    (h : Kept w past s ts) (hcur : past.Current ts)
    (hd : ∀ x ∈ s.objects c.object, s.Answerable w c servant raised x)
    (hr : s.useServant w c servant raised = .ok (s', raised')) :
    Kept w past s' ts ∧ (raised' = false → ∀ x ∈ s'.objects c.object, s'.Usable w c x) := by
  unfold State.useServant at hr
  obtain ⟨x, hx, hr⟩ := Outcomes.of_bind hr
  have hx := State.object_ok hx
  obtain ⟨hv, hu⟩ := hd x hx
  split at hr
  · cases hr
    refine ⟨h, fun hraised y hy => ?_⟩
    cases hx.symm.trans hy
    exact hu hraised
  · rename_i sv
    obtain ⟨hnone, h0⟩ := hv (by simp)
    split at hr
    · cases hr
      exact ⟨h, fun hf => by cases hf⟩
    · rename_i hun
      cases hr
      refine ⟨h.link hx rfl rfl rfl rfl hnone h0 (fun hu₁ => ?_) hcur, fun hraised y hy => ?_⟩
      · by_contra hne
        exact hun ⟨hu₁, hne⟩
      · exact State.of_mem_setObject hy (hu hraised)

theorem Kept.incarnated {c : Call} {servant : Option Nat} {raised : Bool} (h : Kept w past s ts)
    (hcur : past.Current ts) (hd : ∀ x ∈ s.objects c.object, s.Answerable w c servant raised x)
    (hr : s.incarnated w c servant raised = .ok (s', ks)) : Kept w past s' (ks ++ ts) := by
  unfold State.incarnated at hr
  obtain ⟨⟨s₁, raised'⟩, hs₁, hr⟩ := Outcomes.of_bind hr
  obtain ⟨h₁, hu⟩ := h.useServant hcur hd hs₁
  exact h₁.served hcur hu hr

theorem Kept.preinvoked {c : Call} {servant : Option Nat} {cookie : Nat} {raised : Bool}
    (h : Kept w past s ts) (hcur : past.Current ts)
    (hd : ∀ x ∈ s.objects c.object, s.Answerable w c servant raised x)
    (hr : s.preinvoked w c servant cookie raised = .ok (s', ks)) : Kept w past s' (ks ++ ts) := by
  unfold State.preinvoked at hr
  obtain ⟨x, hx, hr⟩ := Outcomes.of_bind hr
  obtain ⟨⟨s₁, raised'⟩, hs₁, hr⟩ := Outcomes.of_bind hr
  have h₀ : ∀ visits, Kept w past { s with visits } ts :=
    fun _ => h.congr rfl rfl rfl fun _ => ⟨rfl, rfl⟩
  have hd₀ : ∀ visits, ∀ x ∈ ({ s with visits } : State).objects c.object,
      ({ s with visits } : State).Answerable w c servant raised x := fun _ => hd
  obtain ⟨h₁, hu⟩ := (h₀ _).useServant hcur (hd₀ _) hs₁
  exact h₁.served hcur hu hr

theorem Kept.returned {c : Call} {cookie : Nat} (h : Kept w past s (.method c cookie :: ts))
    (hd : ∀ x ∈ s.objects c.object, s.Returnable w x)
    (hr : s.returned w c cookie = .ok (s', ks)) : Kept w past s' (ks ++ ts) := by
  unfold State.returned at hr
  obtain ⟨s₁, hs₁, hr⟩ := Outcomes.of_bind hr
  have h₁ : Kept w past s₁ (.endUse c :: ts) :=
    (h.lock hs₁).tasks (fun _ => rfl) (fun _ => rfl)
  refine h₁.endRequest (fun y hy => ?_) hr
  rw [State.lock_objects hs₁] at hy
  exact (hd y hy).lock hs₁

theorem Kept.finalized {servant : Nat} {raised raised' : Bool}
    (h : Kept w past s (.finalize p o servant raised' :: ts)) (hd : ∀ x ∈ s.objects o, s.Droppable x)
    (hr : s.finalized w p o raised = .ok s') : Kept w past s' ts := by
  unfold State.finalized at hr
  obtain ⟨s₁, hs₁, hr⟩ := Outcomes.of_bind hr
  refine (h.lock hs₁).endEtherealize (fun y hy => ?_) hr
  rw [State.lock_objects hs₁] at hy
  exact (hd y hy).lock hs₁

end

end ORBit2.PortableServer
