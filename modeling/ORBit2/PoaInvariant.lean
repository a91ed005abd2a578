import ORBit2.Base.Outcomes
import ORBit2.PoaOperations

/-! What holds of objects, servants and maps between two pieces of work, and how the small
functions of the POA keep it. -/

set_option autoImplicit false

namespace ORBit2.PortableServer

/-- The uses of an object by requests that a task stands for. -/
def Task.requestUse (o : Nat) : Task → Nat
  | .method c _ | .endUse c => if c.object = o then 1 else 0
  | _ => 0

/-- The use of an object while its servant is finalized. -/
def Task.finalUse (o : Nat) : Task → Nat
  | .etherealize _ o' _ | .finalize _ o' _ _ => if o' = o then 1 else 0
  | _ => 0

def requestUses (o : Nat) (ts : List Task) : Nat := (ts.map (Task.requestUse o)).sum

def finalUses (o : Nat) (ts : List Task) : Nat := (ts.map (Task.finalUse o)).sum

@[simp] theorem requestUses_cons (o : Nat) (k : Task) (ts : List Task) :
    requestUses o (k :: ts) = k.requestUse o + requestUses o ts := by simp [requestUses]

@[simp] theorem finalUses_cons (o : Nat) (k : Task) (ts : List Task) :
    finalUses o (k :: ts) = k.finalUse o + finalUses o ts := by simp [finalUses]

@[simp] theorem requestUses_append (o : Nat) (ts ts' : List Task) :
    requestUses o (ts ++ ts') = requestUses o ts + requestUses o ts' := by simp [requestUses]

@[simp] theorem finalUses_append (o : Nat) (ts ts' : List Task) :
    finalUses o (ts ++ ts') = finalUses o ts + finalUses o ts' := by simp [finalUses]

/-- The use count of an object, against the requests that use it and the finalizations. -/
structure Used (x : POAObject) (requests finals : Nat) : Prop where
  count : x.useCnt = requests + finals
  small : x.useCnt < useCntMod
  active : x.servant = none → requests = 0
  final : x.servant ≠ none → finals = 0
  deferred : x.life.deactivateDo = true → 0 < x.useCnt ∧ x.life.needPostInvoke = true

/-- The servants of objects that were in use, and whether a deactivation had been asked for. -/
abbrev Past : Type := Nat → Option (Nat × Bool)

/-- Only objects in use have a past. -/
def Past.Current (past : Past) (ts : List Task) : Prop :=
  ∀ o, requestUses o ts = 0 → past o = none

/-- The invariant, with the pending tasks of all threads in any order. -/
structure Kept (w : World) (past : Past) (s : State) (ts : List Task) : Prop where
  accepted : ∀ p, (s.poas p).created = true → (w.policies p).Accepted
  created : ∀ o x, s.objects o = some x → (s.poas x.poa).created = true
  bound : ∀ o x, s.objects o = some x → o < s.nextObject
  fresh : ∀ o, s.nextObject ≤ o → requestUses o ts = 0 ∧ finalUses o ts = 0
  listed : ∀ servant o, o ∈ s.privates servant ↔
    ∃ x, s.objects o = some x ∧ x.servant = some servant
  nodup : ∀ servant, (s.privates servant).Nodup
  unique : ∀ o o' x x' servant, s.objects o = some x → s.objects o' = some x' → x.poa = x'.poa →
    (w.policies x.poa).uniqueId = true → x.servant = some servant → x'.servant = some servant →
    o = o'
  entries : ∀ p, ∀ e ∈ (s.poas p).map, e.1 = e.2 ∧ ∃ x, s.objects e.2 = some x ∧ x.poa = p
  live : ∀ o x, s.objects o = some x → x.objectId ≠ none ∧ x.life.destroyed = false
  uses : ∀ o x, s.objects o = some x → (w.policies x.poa).retain = true →
    Used x (requestUses o ts) (finalUses o ts)
  retained : ∀ o x, s.objects o = some x → past o ≠ none → (w.policies x.poa).retain = true
  kept : ∀ o servant asked, past o = some (servant, asked) → 0 < requestUses o ts →
    ∃ x, s.objects o = some x ∧ x.servant = some servant
  asked : ∀ o x servant, s.objects o = some x → past o = some (servant, true) →
    x.servant = some servant → x.life.deactivateDo = true

section
variable {w : World} {past past' : Past} {s s' : State} {ts ts' : List Task} {o p : Nat}
variable {x x' : POAObject}

@[simp] theorem State.setPoa_poas (s : State) (p q : Nat) (f : POA → POA) :
    (s.setPoa p f).poas q = if q = p then f (s.poas q) else s.poas q := by
  unfold State.setPoa
  by_cases hq : q = p
  · simp [hq]
  · simp [hq]

@[simp] theorem State.setObject_objects (s : State) (o o' : Nat) (x : POAObject) :
    (s.setObject o x).objects o' = if o' = o then some x else s.objects o' := by
  unfold State.setObject
  by_cases ho : o' = o <;> simp [ho]

@[simp] theorem State.setObject_poas (s : State) (o : Nat) (x : POAObject) :
    (s.setObject o x).poas = s.poas := rfl

@[simp] theorem State.setPoa_objects (s : State) (p : Nat) (f : POA → POA) :
    (s.setPoa p f).objects = s.objects := rfl

theorem State.object_ok (h : s.object o = .ok x) : s.objects o = some x := by
  unfold State.object at h
  split at h
  · rename_i y hy
    cases h
    exact hy
  · cases h

/-- Everything else is free to change. -/
theorem Kept.congr (h : Kept w past s ts) (ho : s'.objects = s.objects) (hp : s'.privates = s.privates)
    (hn : s'.nextObject = s.nextObject)
    (hq : ∀ p, (s'.poas p).map = (s.poas p).map ∧ (s'.poas p).created = (s.poas p).created) :
    Kept w past s' ts where
  accepted p hc := h.accepted p ((hq p).2 ▸ hc)
  created o x hx := (hq x.poa).2.trans (h.created o x (ho ▸ hx))
  bound o x hx := by
    rw [hn]
    exact h.bound o x (ho ▸ hx)
  fresh o hle := h.fresh o (hn ▸ hle)
  listed sv o := by
    rw [hp, ho]
    exact h.listed sv o
  nodup sv := by
    rw [hp]
    exact h.nodup sv
  unique := by
    rw [ho]
    exact h.unique
  entries p e he := by
    rw [ho]
    exact h.entries p e ((hq p).1 ▸ he)
  live := by
    rw [ho]
    exact h.live
  uses := by
    rw [ho]
    exact h.uses
  retained := by
    rw [ho]
    exact h.retained
  kept := by
    rw [ho]
    exact h.kept
  asked := by
    rw [ho]
    exact h.asked

theorem Kept.tasks (h : Kept w past s ts) (hr : ∀ o, requestUses o ts' = requestUses o ts)
    (hf : ∀ o, finalUses o ts' = finalUses o ts) : Kept w past s ts' where
  accepted := h.accepted
  created := h.created
  bound := h.bound
  fresh o hle := by
    rw [hr, hf]
    exact h.fresh o hle
  listed := h.listed
  nodup := h.nodup
  unique := h.unique
  entries := h.entries
  live := h.live
  uses o x hx hp := by
    rw [hr, hf]
    exact h.uses o x hx hp
  retained := h.retained
  kept o sv asked hp hu := h.kept o sv asked hp (hr o ▸ hu)
  asked := h.asked

/-- Nothing changes that matters, and no task uses an object that did not before. -/
theorem Kept.frame (h : Kept w past s ts) (hr : ∀ o, requestUses o ts' = requestUses o ts)
    (hf : ∀ o, finalUses o ts' = finalUses o ts) (ho : s'.objects = s.objects)
    (hp : s'.privates = s.privates) (hn : s'.nextObject = s.nextObject)
    (hq : ∀ p, (s'.poas p).map = (s.poas p).map ∧ (s'.poas p).created = (s.poas p).created) :
    Kept w past s' ts' :=
  (h.tasks hr hf).congr ho hp hn hq

/-- A change at a POA that leaves its map alone. -/
theorem Kept.setPoa (h : Kept w past s ts) {f : POA → POA} (hm : ∀ a, (f a).map = a.map)
    (hc : ∀ a, (f a).created = a.created) : Kept w past (s.setPoa p f) ts := by
  refine h.congr rfl rfl rfl fun q => ?_
  rw [State.setPoa_poas]
  split
  · exact ⟨hm _, hc _⟩
  · exact ⟨rfl, rfl⟩

/-- To take a lock changes nothing else. -/
theorem State.lock_ok (hl : s.lock w p = .ok s') :
    s' = s ∨ s' = s.setPoa p fun a => { a with locked := true } := by
  unfold State.lock at hl
  split at hl
  · cases hl
    exact .inl rfl
  · split at hl
    · cases hl
    · cases hl
      exact .inr rfl

theorem State.lock_objects (hl : s.lock w p = .ok s') : s'.objects = s.objects := by
  rcases State.lock_ok hl with rfl | rfl <;> rfl

theorem State.lock_privates (hl : s.lock w p = .ok s') : s'.privates = s.privates := by
  rcases State.lock_ok hl with rfl | rfl <;> rfl

theorem State.lock_managers (hl : s.lock w p = .ok s') : s'.managers = s.managers := by
  rcases State.lock_ok hl with rfl | rfl <;> rfl

theorem State.lock_visits (hl : s.lock w p = .ok s') : s'.visits = s.visits := by
  rcases State.lock_ok hl with rfl | rfl <;> rfl

/-- What does not look at the lock of a POA. -/
theorem State.lock_poa {α : Type} (f : POA → α) (hf : ∀ a, f { a with locked := true } = f a)
    (hl : s.lock w p = .ok s') (q : Nat) : f (s'.poas q) = f (s.poas q) := by
  rcases State.lock_ok hl with rfl | rfl
  · rfl
  · rw [State.setPoa_poas]
    split
    · exact hf _
    · rfl

theorem State.lock_life (hl : s.lock w p = .ok s') (q : Nat) :
    (s'.poas q).life = (s.poas q).life := State.lock_poa (·.life) (fun _ => rfl) hl q

theorem State.lock_created (hl : s.lock w p = .ok s') (q : Nat) :
    (s'.poas q).created = (s.poas q).created := State.lock_poa (·.created) (fun _ => rfl) hl q

theorem State.lock_map (hl : s.lock w p = .ok s') (q : Nat) :
    (s'.poas q).map = (s.poas q).map := State.lock_poa (·.map) (fun _ => rfl) hl q

theorem State.lock_nextSysid (hl : s.lock w p = .ok s') (q : Nat) :
    (s'.poas q).nextSysid = (s.poas q).nextSysid :=
  State.lock_poa (·.nextSysid) (fun _ => rfl) hl q

theorem Kept.lock (h : Kept w past s ts) (hl : s.lock w p = .ok s') : Kept w past s' ts := by
  rcases State.lock_ok hl with rfl | rfl
  · exact h
  · exact h.setPoa (fun _ => rfl) (fun _ => rfl)

theorem Kept.unlock (h : Kept w past s ts) : Kept w past (s.unlock w p) ts := by
  unfold State.unlock
  split
  · exact h
  · exact h.setPoa (fun _ => rfl) (fun _ => rfl)

/-- A change at one object, and at the lists it is on. -/
theorem Kept.change (h : Kept w past s ts) (hx : s.objects o = some x)
    (ho : ∀ o', s'.objects o' = if o' = o then some x' else s.objects o') (hq : s'.poas = s.poas)
    (hn : s'.nextObject = s.nextObject) (hp : x'.poa = x.poa) (hid : x'.objectId = x.objectId)
    (hd : x'.life.destroyed = x.life.destroyed)
    (hl : ∀ sv o', o' ∈ s'.privates sv ↔
      if o' = o then x'.servant = some sv else o' ∈ s.privates sv)
    (hnd : ∀ sv, (s'.privates sv).Nodup)
    (hun : (w.policies x.poa).uniqueId = true → ∀ sv, x'.servant = some sv →
      ∀ o' y, o' ≠ o → s.objects o' = some y → y.poa = x.poa → y.servant ≠ some sv)
    (hts : ∀ o', o' ≠ o → requestUses o' ts' = requestUses o' ts ∧ finalUses o' ts' = finalUses o' ts)
    (hu : (w.policies x.poa).retain = true → Used x' (requestUses o ts') (finalUses o ts'))
    (hpast : past o ≠ none → x'.servant = none ∨ (x'.servant = x.servant ∧
      (0 < requestUses o ts' → 0 < requestUses o ts) ∧
      (x.life.deactivateDo = true → x'.life.deactivateDo = true))) :
    Kept w past s' ts' := by
  have hget : ∀ o' y, s'.objects o' = some y →
      (o' = o ∧ y = x') ∨ (o' ≠ o ∧ s.objects o' = some y) := by
    intro o' y hy
    rw [ho] at hy
    split at hy
    · rename_i he
      cases hy
      exact .inl ⟨he, rfl⟩
    · rename_i he
      exact .inr ⟨he, hy⟩
  constructor
  · rw [hq]
    exact h.accepted
  · intro o' y hy
    rw [hq]
    rcases hget o' y hy with ⟨-, rfl⟩ | ⟨-, hy⟩
    · rw [hp]
      exact h.created o x hx
    · exact h.created o' y hy
  · intro o' y hy
    rw [hn]
    rcases hget o' y hy with ⟨rfl, -⟩ | ⟨-, hy⟩
    · exact h.bound o' x hx
    · exact h.bound o' y hy
  · intro o' hle
    rw [hn] at hle
    have hb := h.bound o x hx
    have hne : o' ≠ o := by omega
    rw [(hts o' hne).1, (hts o' hne).2]
    exact h.fresh o' hle
  · intro sv o'
    rw [hl, ho]
    split
    · simp
    · exact h.listed sv o'
  · exact hnd
  · intro o₁ o₂ y₁ y₂ sv h₁ h₂ hpoa hu₁ hs₁ hs₂
    rcases hget o₁ y₁ h₁ with ⟨rfl, rfl⟩ | ⟨hn₁, h₁⟩
    · rcases hget o₂ y₂ h₂ with ⟨rfl, -⟩ | ⟨hn₂, h₂⟩
      · rfl
      · exact absurd hs₂ (hun (hp ▸ hu₁) sv hs₁ o₂ y₂ hn₂ h₂ (hpoa.symm.trans hp))
    · rcases hget o₂ y₂ h₂ with ⟨rfl, rfl⟩ | ⟨-, h₂⟩
      · have hp₁ : y₁.poa = x.poa := hpoa.trans hp
        exact absurd hs₁ (hun (hp₁ ▸ hu₁) sv hs₂ o₁ y₁ hn₁ h₁ hp₁)
      · exact h.unique o₁ o₂ y₁ y₂ sv h₁ h₂ hpoa hu₁ hs₁ hs₂
  · intro q e he
    rw [hq] at he
    obtain ⟨heq, y, hy, hyp⟩ := h.entries q e he
    refine ⟨heq, ?_⟩
    rw [ho]
    split
    · rename_i he'
      rw [he', hx] at hy
      cases hy
      exact ⟨x', rfl, hp.trans hyp⟩
    · exact ⟨y, hy, hyp⟩
  · intro o' y hy
    rcases hget o' y hy with ⟨rfl, rfl⟩ | ⟨-, hy⟩
    · rw [hid, hd]
      exact h.live o' x hx
    · exact h.live o' y hy
  · intro o' y hy hr
    rcases hget o' y hy with ⟨rfl, rfl⟩ | ⟨hne, hy⟩
    · exact hu (hp ▸ hr)
    · rw [(hts o' hne).1, (hts o' hne).2]
      exact h.uses o' y hy hr
  · intro o' y hy hne
    rcases hget o' y hy with ⟨rfl, rfl⟩ | ⟨-, hy⟩
    · rw [hp]
      exact h.retained o' x hx hne
    · exact h.retained o' y hy hne
  · intro o' sv asked hs hpos
    rw [ho]
    split
    · rename_i he
      subst he
      have hne : past o' ≠ none := by simp [hs]
      refine ⟨x', rfl, ?_⟩
      rcases hpast hne with hnone | ⟨hsame, hless, -⟩
      · have := (hu (h.retained o' x hx hne)).active hnone
        omega
      · obtain ⟨y, hy, hys⟩ := h.kept o' sv asked hs (hless hpos)
        cases hx.symm.trans hy
        exact hsame.trans hys
    · rename_i hne
      rw [(hts o' hne).1] at hpos
      exact h.kept o' sv asked hs hpos
  · intro o' y sv hy hs hys
    rcases hget o' y hy with ⟨rfl, rfl⟩ | ⟨-, hy⟩
    · rcases hpast (by simp [hs]) with hnone | ⟨hsame, -, hdo⟩
      · rw [hnone] at hys
        cases hys
      · exact hdo (h.asked o' x sv hx hs (hsame ▸ hys))
    · exact h.asked o' y sv hy hs hys

theorem Kept.mem_privates (h : Kept w past s ts) (hx : s.objects o = some x) (sv : Nat) :
    o ∈ s.privates sv ↔ x.servant = some sv := by
  simp [h.listed sv o, hx]

/-- An object whose place in the lists and the maps stays the same. -/
theorem Kept.setObject (h : Kept w past s ts) (hx : s.objects o = some x) (hp : x'.poa = x.poa)
    (hid : x'.objectId = x.objectId) (hsv : x'.servant = x.servant)
    (hd : x'.life.destroyed = x.life.destroyed)
    (hts : ∀ o', o' ≠ o → requestUses o' ts' = requestUses o' ts ∧ finalUses o' ts' = finalUses o' ts)
    (hu : (w.policies x.poa).retain = true → Used x' (requestUses o ts') (finalUses o ts'))
    (hpast : past o ≠ none → x'.servant = none ∨ ((0 < requestUses o ts' → 0 < requestUses o ts) ∧
      (x.life.deactivateDo = true → x'.life.deactivateDo = true))) :
    Kept w past (s.setObject o x') ts' := by
  refine h.change hx (State.setObject_objects s o · x') rfl rfl hp hid hd ?_ h.nodup ?_ hts hu
    fun hne => (hpast hne).imp_right fun hk => ⟨hsv, hk⟩
  · intro sv o'
    split
    · rename_i he
      rw [he, hsv]
      exact h.mem_privates hx sv
    · exact Iff.rfl
  · intro hun sv hs o' y hne hy hyp hys
    exact hne (h.unique o' o y x sv hy hx hyp (hyp ▸ hun) hys (hsv ▸ hs))

/-- An object that gets a servant. -/
theorem Kept.link {y : POAObject} {servant : Nat} (h : Kept w past s ts) (hx : s.objects o = some x)
    (hp : y.poa = x.poa) (hid : y.objectId = x.objectId) (hl : y.life = x.life)
    (hc : y.useCnt = x.useCnt) (hsv : x.servant = none)
    (hu : (w.policies x.poa).retain = true → x.useCnt = 0)
    (hun : (w.policies x.poa).uniqueId = true → s.privates servant = []) (hcur : past.Current ts) :
    Kept w past (s.link o y servant) ts := by
  have hpriv : ∀ sv, (s.link o y servant).privates sv =
      if sv = servant then o :: s.privates sv else s.privates sv := by
    intro sv
    unfold State.link
    by_cases hs : sv = servant <;> simp [hs]
  have hnot : ∀ sv, o ∉ s.privates sv := by
    intro sv hm
    have := (h.mem_privates hx sv).mp hm
    simp [hsv] at this
  refine h.change hx (State.setObject_objects s o · _) rfl rfl hp hid (by rw [hl]) ?_ ?_ ?_
    (fun _ _ => ⟨rfl, rfl⟩) ?_ ?_
  · intro sv o'
    rw [hpriv]
    by_cases ho : o' = o
    · subst ho
      by_cases hs : sv = servant
      · simp [hs]
      · simp [hs, hnot sv, Ne.symm hs]
    · split <;> simp [ho]
  · intro sv
    rw [hpriv]
    split
    · exact List.nodup_cons.mpr ⟨hnot sv, h.nodup sv⟩
    · exact h.nodup sv
  · -- nothing else is on the list of a servant that is linked under UNIQUE_ID
    intro hu₁ sv hs o' z _ hz _ hzs
    cases hs
    have hm := (h.listed servant o').mpr ⟨z, hz, hzs⟩
    rw [hun hu₁] at hm
    cases hm
  · intro hr
    have hold := h.uses o x hx hr
    have h0 := hu hr
    have hcount := hold.count
    constructor
    · simpa [hc] using hold.count
    · simpa [hc] using hold.small
    · simp
    · intro _
      omega
    · simpa [hl, hc] using hold.deferred
  · intro hne
    have hre := h.retained o x hx hne
    exact absurd (hcur o ((h.uses o x hx hre).active hsv)) hne

/-- An object that loses its servant. -/
theorem Kept.unlink {y : POAObject} {servant : Nat} (h : Kept w past s ts) (hx : s.objects o = some x)
    (hp : y.poa = x.poa) (hid : y.objectId = x.objectId)
    (hd : y.life.destroyed = x.life.destroyed) (hsv : x.servant = some servant)
    (hu : (w.policies x.poa).retain = true →
      Used { y with servant := none } (requestUses o ts) (finalUses o ts))
    (hl : s.unlink o y servant = .ok s') : Kept w past s' ts := by
  unfold State.unlink at hl
  split at hl
  · cases hl
    have hpriv : ∀ sv, Function.update s.privates servant ((s.privates servant).erase o) sv =
        (s.privates sv).filter fun o' => o' ≠ o := by
      intro sv
      by_cases hs : sv = servant
      · subst hs
        rw [Function.update_self, (h.nodup sv).erase_eq_filter]
        congr 1
        funext o'
        by_cases ho : o' = o <;> simp [ho]
      · rw [Function.update_of_ne hs]
        refine (List.filter_eq_self.mpr fun o' ho' => ?_).symm
        have hne : o' ≠ o := by
          rintro rfl
          have := (h.mem_privates hx sv).mp ho'
          rw [hsv] at this
          exact hs (Option.some.inj this).symm
        simpa using hne
    refine h.change hx (State.setObject_objects s o · _) rfl rfl hp hid hd ?_ ?_ ?_
      (fun _ _ => ⟨rfl, rfl⟩) hu fun _ => .inl rfl
    · intro sv o'
      simp only [hpriv, List.mem_filter]
      by_cases ho : o' = o <;> simp [ho]
    · intro sv
      simp only [hpriv]
      exact (h.nodup sv).filter _
    · intro _ sv hs
      cases hs
  · cases hl

theorem Used.congr {n m : Nat} (h : Used x n m) (hc : x'.useCnt = x.useCnt)
    (hsv : x'.servant = x.servant) (hl : x'.life = x.life) : Used x' n m := by
  constructor
  · rw [hc]
    exact h.count
  · rw [hc]
    exact h.small
  · rw [hsv]
    exact h.active
  · rw [hsv]
    exact h.final
  · rw [hc, hl]
    exact h.deferred

/-- Only references come and go. -/
theorem Kept.setRefs (h : Kept w past s ts) (hx : s.objects o = some x) (hp : x'.poa = x.poa)
    (hid : x'.objectId = x.objectId) (hsv : x'.servant = x.servant) (hl : x'.life = x.life)
    (hc : x'.useCnt = x.useCnt) : Kept w past (s.setObject o x') ts :=
  h.setObject hx hp hid hsv (by rw [hl]) (fun _ _ => ⟨rfl, rfl⟩)
    (fun hr => (h.uses o x hx hr).congr hc hsv hl) fun _ => .inr ⟨id, by simp [hl]⟩

/-- A reference to the object can be given back: while the POA walks over its map, it is not the
last one. -/
def State.Droppable (s : State) (x : POAObject) : Prop :=
  (s.poas x.poa).life.deactivating = true → 1 < x.refs

instance (s : State) (x : POAObject) : Decidable (s.Droppable x) := by
  unfold State.Droppable; infer_instance

/-- The last reference takes the object with it, and its entry. -/
theorem Kept.free (h : Kept w past s ts) (hx : s.objects o = some x) (hsv : x.servant = none) :
    Kept w past { s.setPoa x.poa fun p => { p with map := p.map.filter fun e => s.key e ≠ x.objectId } with
      objects := Function.update s.objects o none } ts := by
  have hget : ∀ o' y, Function.update s.objects o none o' = some y →
      o' ≠ o ∧ s.objects o' = some y := by
    intro o' y hy
    by_cases he : o' = o
    · subst he
      simp at hy
    · rw [Function.update_of_ne he] at hy
      exact ⟨he, hy⟩
  have hcreated : ∀ q, ((s.setPoa x.poa fun p =>
      { p with map := p.map.filter fun e => s.key e ≠ x.objectId }).poas q).created =
        (s.poas q).created := by
    intro q
    rw [State.setPoa_poas]
    split <;> rfl
  constructor
  · intro p hp
    exact h.accepted p ((hcreated p).symm.trans hp)
  · intro o' y hy
    exact (hcreated y.poa).trans (h.created o' y (hget o' y hy).2)
  · intro o' y hy
    exact h.bound o' y (hget o' y hy).2
  · exact h.fresh
  · intro sv o'
    refine (h.listed sv o').trans ?_
    by_cases he : o' = o
    · subst he
      simp [hx, hsv]
    · simp [Function.update_of_ne he]
  · exact h.nodup
  · intro o₁ o₂ y₁ y₂ sv h₁ h₂
    exact h.unique o₁ o₂ y₁ y₂ sv (hget o₁ y₁ h₁).2 (hget o₂ y₂ h₂).2
  · intro q e he
    have hmem : e ∈ (s.poas q).map ∧ (q = x.poa → s.key e ≠ x.objectId) := by
      simp only [State.setPoa_poas] at he
      split at he
      · rename_i hq
        subst hq
        simpa [List.mem_filter] using he
      · rename_i hq
        exact ⟨he, fun hq' => absurd hq' hq⟩
    obtain ⟨heq, y, hy, hyp⟩ := h.entries q e hmem.1
    refine ⟨heq, y, ?_, hyp⟩
    have hne : e.2 ≠ o := by
      intro he₂
      rw [he₂, hx] at hy
      cases hy
      refine hmem.2 hyp.symm ?_
      unfold State.key
      rw [heq, he₂, hx]
      rfl
    simp only [Function.update_of_ne hne]
    exact hy
  · intro o' y hy
    exact h.live o' y (hget o' y hy).2
  · intro o' y hy hr
    exact h.uses o' y (hget o' y hy).2 hr
  · intro o' y hy
    exact h.retained o' y (hget o' y hy).2
  · intro o' sv asked hp hpos
    obtain ⟨y, hy, hys⟩ := h.kept o' sv asked hp hpos
    have hne : o' ≠ o := by
      rintro rfl
      cases hx.symm.trans hy
      rw [hsv] at hys
      cases hys
    refine ⟨y, ?_, hys⟩
    simp only [Function.update_of_ne hne]
    exact hy
  · intro o' y sv hy
    exact h.asked o' y sv (hget o' y hy).2

theorem Kept.release (h : Kept w past s ts) (hd : ∀ x ∈ s.objects o, s.Droppable x)
    (hr : s.release o = .ok s') : Kept w past s' ts := by
  unfold State.release at hr
  obtain ⟨x, hx, hr⟩ := Outcomes.of_bind hr
  have hx := State.object_ok hx
  obtain ⟨h0, hr⟩ := Outcomes.of_guard hr
  split at hr
  · rename_i h1
    unfold State.releaseCb at hr
    obtain ⟨hsv, hr⟩ := Outcomes.of_guard hr
    split at hr
    · rename_i hdeact
      have := hd x hx hdeact
      omega
    · cases hr
      exact h.free hx (by simpa using hsv)
  · cases hr
    exact h.setRefs hx rfl rfl rfl rfl rfl

theorem Kept.duplicate (h : Kept w past s ts) (hr : s.duplicate o = .ok s') : Kept w past s' ts := by
  unfold State.duplicate at hr
  obtain ⟨x, hx, hr⟩ := Outcomes.of_bind hr
  cases hr
  exact h.setRefs (State.object_ok hx) rfl rfl rfl rfl rfl

theorem Kept.objToRef {intf : Bool} (h : Kept w past s ts) (hr : s.objToRef o intf = .ok s') :
    Kept w past s' ts := by
  unfold State.objToRef at hr
  obtain ⟨x, hx, hr⟩ := Outcomes.of_bind hr
  obtain ⟨-, hr⟩ := Outcomes.of_guard hr
  cases hr
  exact h.setRefs (State.object_ok hx) rfl rfl rfl rfl rfl

theorem Kept.duplicateReference (h : Kept w past s ts) (hr : s.duplicateReference o = .ok s') :
    Kept w past s' ts := by
  unfold State.duplicateReference at hr
  obtain ⟨x, hx, hr⟩ := Outcomes.of_bind hr
  split at hr
  · cases hr
  · cases hr
    exact h.setRefs (State.object_ok hx) rfl rfl rfl rfl rfl

theorem Kept.releaseReference (h : Kept w past s ts)
    (hd : ∀ x ∈ s.objects o, x.objref = some 1 → s.Droppable x)
    (hr : s.releaseReference o = .ok s') : Kept w past s' ts := by
  unfold State.releaseReference at hr
  obtain ⟨x, hx, hr⟩ := Outcomes.of_bind hr
  have hx := State.object_ok hx
  split at hr
  · cases hr
  · rename_i n hn
    split at hr
    · rename_i h1
      have h' : Kept w past (s.setObject o { x with objref := none }) ts :=
        h.setRefs hx rfl rfl rfl rfl rfl
      refine h'.release ?_ hr
      intro y hy
      simp only [State.setObject_objects, if_true, Option.mem_some_iff] at hy
      subst hy
      exact hd x hx (h1 ▸ hn)
    · cases hr
      exact h.setRefs hx rfl rfl rfl rfl rfl

/-- No object of the POA has this id. -/
def State.Unused (s : State) (p : Nat) (oid : Octets) : Prop :=
  ∀ e ∈ (s.poas p).map, s.key e ≠ some oid

instance (s : State) (p : Nat) (oid : Octets) : Decidable (s.Unused p oid) := by
  unfold State.Unused; infer_instance

theorem State.unused_of_lookup {oid : Octets} (h : s.objectIdLookup p oid = .ok none) :
    s.Unused p oid := by
  unfold State.objectIdLookup at h
  obtain ⟨-, h⟩ := Outcomes.of_guard h
  simp only [Except.ok.injEq, Option.map_eq_none_iff, List.find?_eq_none, decide_eq_true_eq] at h
  exact h

/-- The object that is found belongs to the POA. -/
theorem Kept.lookup {oid : Octets} (h : Kept w past s ts) (hl : s.objectIdLookup p oid = .ok (some o)) :
    ∃ x, s.objects o = some x ∧ x.poa = p ∧ x.objectId = some oid := by
  unfold State.objectIdLookup at hl
  obtain ⟨-, hl⟩ := Outcomes.of_guard hl
  simp only [Except.ok.injEq, Option.map_eq_some_iff] at hl
  obtain ⟨e, he, rfl⟩ := hl
  have hk := List.find?_some he
  obtain ⟨heq, x, hx, hp⟩ := h.entries p e (List.mem_of_find?_eq_some he)
  refine ⟨x, hx, hp, ?_⟩
  unfold State.key at hk
  simpa [heq, hx] using hk

/-- An object is made, and with it an entry that finds it. -/
theorem Kept.createObject {objid : Option Octets} {random : Octets} (h : Kept w past s ts)
    (hc : (s.poas p).created = true)
    (hf : s.Unused p (objid.getD (s.newSystemObjid w p random))) (hcur : past.Current ts)
    (hr : s.createObject w p objid random = .ok (s', o)) :
    Kept w past s' ts ∧ s'.privates = s.privates ∧
      ∃ oid, s'.objects o = some (.new p oid) := by
  unfold State.createObject at hr
  obtain ⟨oid, hoid, hr⟩ := Outcomes.of_bind hr
  obtain ⟨-, hr⟩ := Outcomes.of_guard hr
  have hid : objid.getD (s.newSystemObjid w p random) = oid := by
    unfold State.objidFor at hoid
    cases objid with
    | none =>
      simp only at hoid
      split at hoid
      · cases hoid
        rfl
      · cases hoid
    | some oid' =>
      obtain ⟨-, hoid⟩ := Outcomes.of_guard hoid
      cases hoid
      rfl
  rw [hid] at hf
  simp only [Except.ok.injEq, Prod.mk.injEq] at hr
  obtain ⟨hs, ho⟩ := hr
  have hmap : s.insertEntry p oid s.nextObject =
      (s.nextObject, s.nextObject) :: (s.poas p).map := by
    unfold State.insertEntry
    rw [if_neg]
    rintro ⟨e, he, hk⟩
    exact hf e he hk
  rw [hmap] at hs
  have hobj : ∀ o', s'.objects o' = if o' = s.nextObject then some (.new p oid) else s.objects o' := by
    intro o'
    rw [← hs]
    exact State.setObject_objects _ _ _ _
  have hnew : ∀ o' y, s'.objects o' = some y →
      (o' = s.nextObject ∧ y = .new p oid) ∨ (o' < s.nextObject ∧ s.objects o' = some y) := by
    intro o' y hy
    rw [hobj] at hy
    split at hy
    · rename_i he
      cases hy
      exact .inl ⟨he, rfl⟩
    · exact .inr ⟨h.bound o' y hy, hy⟩
  have hcreated : ∀ q, (s'.poas q).created = (s.poas q).created := by
    intro q
    rw [← hs]
    simp only [State.setObject_poas, State.setPoa_poas]
    split <;> rfl
  have hnone : s.objects s.nextObject = none := by
    cases hn : s.objects s.nextObject with
    | none => rfl
    | some y => exact absurd (h.bound _ y hn) (Nat.lt_irrefl _)
  refine ⟨?_, by rw [← hs]; rfl, oid, by rw [hobj, ← ho, if_pos rfl]⟩
  constructor
  · intro q hq
    exact h.accepted q ((hcreated q).symm.trans hq)
  · intro o' y hy
    rw [hcreated]
    rcases hnew o' y hy with ⟨-, rfl⟩ | ⟨-, hy⟩
    · exact hc
    · exact h.created o' y hy
  · intro o' y hy
    have hn : s'.nextObject = s.nextObject + 1 := by rw [← hs]
    rcases hnew o' y hy with ⟨rfl, -⟩ | ⟨hlt, -⟩ <;> omega
  · intro o' hle
    have hn : s'.nextObject = s.nextObject + 1 := by rw [← hs]
    exact h.fresh o' (by omega)
  · intro sv o'
    have hp : s'.privates = s.privates := by rw [← hs]; rfl
    rw [hp, h.listed sv o', hobj]
    split
    · rename_i he
      subst he
      simp [hnone, POAObject.new]
    · exact Iff.rfl
  · intro sv
    have hp : s'.privates = s.privates := by rw [← hs]; rfl
    rw [hp]
    exact h.nodup sv
  · intro o₁ o₂ y₁ y₂ sv h₁ h₂ hpoa hu hs₁ hs₂
    rcases hnew o₁ y₁ h₁ with ⟨-, rfl⟩ | ⟨-, h₁⟩
    · cases hs₁
    · rcases hnew o₂ y₂ h₂ with ⟨-, rfl⟩ | ⟨-, h₂⟩
      · cases hs₂
      · exact h.unique o₁ o₂ y₁ y₂ sv h₁ h₂ hpoa hu hs₁ hs₂
  · intro q e he
    have hmem : (q = p ∧ e = (s.nextObject, s.nextObject)) ∨ e ∈ (s.poas q).map := by
      rw [← hs] at he
      simp only [State.setObject_poas, State.setPoa_poas] at he
      split at he
      · rename_i hq
        subst hq
        rcases List.mem_cons.mp he with he | he
        · exact .inl ⟨rfl, he⟩
        · exact .inr he
      · exact .inr he
    rcases hmem with ⟨rfl, rfl⟩ | hmem
    · exact ⟨rfl, _, by rw [hobj, if_pos rfl], rfl⟩
    · obtain ⟨heq, y, hy, hyp⟩ := h.entries q e hmem
      refine ⟨heq, y, ?_, hyp⟩
      have hlt := h.bound e.2 y hy
      rw [hobj, if_neg (by omega)]
      exact hy
  · intro o' y hy
    rcases hnew o' y hy with ⟨-, rfl⟩ | ⟨-, hy⟩
    · simp [POAObject.new]
    · exact h.live o' y hy
  · intro o' y hy hr
    rcases hnew o' y hy with ⟨rfl, rfl⟩ | ⟨-, hy⟩
    · obtain ⟨hr0, hf0⟩ := h.fresh s.nextObject (Nat.le_refl _)
      rw [hr0, hf0]
      constructor <;> simp [POAObject.new, useCntMod]
    · exact h.uses o' y hy hr
  · intro o' y hy hne
    rcases hnew o' y hy with ⟨rfl, rfl⟩ | ⟨-, hy⟩
    · exact absurd (hcur s.nextObject (h.fresh s.nextObject (Nat.le_refl _)).1) hne
    · exact h.retained o' y hy hne
  · intro o' sv asked hp hpos
    obtain ⟨y, hy, hys⟩ := h.kept o' sv asked hp hpos
    have hlt := h.bound o' y hy
    exact ⟨y, by rw [hobj, if_neg (by omega)]; exact hy, hys⟩
  · intro o' y sv hy hp hys
    rcases hnew o' y hy with ⟨-, rfl⟩ | ⟨-, hy⟩
    · cases hys
    · exact h.asked o' y sv hy hp hys

/-- `ORBit_POA_activate_object_T`, where the policy was looked at before. -/
theorem Kept.activateObject {servant : Option Nat} (h : Kept w past s ts)
    (hun : ∀ x ∈ s.objects o, (w.policies x.poa).uniqueId = true →
      ∀ sv ∈ servant, s.privates sv = [])
    (hcur : past.Current ts) (hr : s.activateObject w p o servant = .ok s') : Kept w past s' ts := by
  unfold State.activateObject at hr
  obtain ⟨x, hx, hr⟩ := Outcomes.of_bind hr
  have hx := State.object_ok hx
  obtain ⟨hg, hr⟩ := Outcomes.of_guard hr
  simp only [not_or, not_not] at hg
  cases servant with
  | none => cases hr
  | some sv =>
    cases hr
    exact h.link hx rfl rfl rfl rfl hg.1 (fun _ => hg.2.2) (fun hu => hun x hx hu sv rfl) hcur

end

end ORBit2.PortableServer
