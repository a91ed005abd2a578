import ORBit2.PoaRuns

/-! What the functions of the POA leave as it is at the objects of a servant locator, and on the
stack of invocations. -/

set_option autoImplicit false

namespace ORBit2.PortableServer

/-- A servant locator finds the servants for the requests. -/
def World.Locates (w : World) (p : Nat) : Prop :=
  (w.policies p).retain = false ∧ (w.policies p).processing = .servantManager

instance (w : World) (p : Nat) : Decidable (w.Locates p) := by
  unfold World.Locates; infer_instance

/-- What holds of objects, lists and maps in every run. -/
structure State.Formed (s : State) : Prop where
  bound : ∀ o, s.nextObject ≤ o → s.objects o = none
  listed : ∀ sv, ∀ o ∈ s.privates sv, o < s.nextObject
  entries : ∀ p, ∀ e ∈ (s.poas p).map,
    e.2 < s.nextObject ∧ ∀ x, s.objects e.2 = some x → x.poa = p
  gone : ∀ o x, s.objects o = some x → x.life.destroyed = true → x.objectId = none

/-- What stays as it is from `s` to `s'`. -/
structure State.Steady (w : World) (s s' : State) : Prop where
  grown : s.nextObject ≤ s'.nextObject
  formed : s.Formed → s'.Formed
  old : ∀ o x', s'.objects o = some x' → o < s.nextObject → ∃ x, s.objects o = some x ∧
    x'.poa = x.poa ∧ (w.Locates x.poa → x'.servant = x.servant ∧
      (x.life.deactivateDo = false → x'.life.deactivateDo = false) ∧
      ∀ sv, (s'.privates sv).count o = (s.privates sv).count o)
  new : s.Formed → ∀ o x', s'.objects o = some x' → s.nextObject ≤ o → w.Locates x'.poa →
    x'.servant = none ∧ x'.life.deactivateDo = false ∧ ∀ sv, o ∉ s'.privates sv
  served : s.Formed → ∀ o x, s.objects o = some x → w.Locates x.poa → x.servant ≠ none →
    x.objectId ≠ none → ∃ x', s'.objects o = some x' ∧ x'.objectId = x.objectId
  managed : ∀ p, (s.poas p).servantManager = true → (s'.poas p).servantManager = true

/-- Nor does anything happen to requests. -/
structure State.Quiet (w : World) (s s' : State) : Prop extends s.Steady w s' where
  invocations : s'.invocations = s.invocations
  visits : s'.visits = s.visits
  queue : s'.queue = s.queue
  nextCall : s'.nextCall = s.nextCall

section
variable {w : World} {s s' s₁ : State} {ks ls : List Task} {o p : Nat} {x x' : POAObject}

theorem State.Steady.trans (h : s.Steady w s₁) (h' : s₁.Steady w s') : s.Steady w s' where
  grown := Nat.le_trans h.grown h'.grown
  formed hf := h'.formed (h.formed hf)
  old o x' hx' ho := by
    obtain ⟨x₁, hx₁, hp₁, hl₁⟩ := h'.old o x' hx' (Nat.lt_of_lt_of_le ho h.grown)
    obtain ⟨x, hx, hp, hl⟩ := h.old o x₁ hx₁ ho
    refine ⟨x, hx, hp₁.trans hp, fun hloc => ?_⟩
    obtain ⟨hsv, hdo, hcount⟩ := hl hloc
    obtain ⟨hsv₁, hdo₁, hcount₁⟩ := hl₁ (hp ▸ hloc)
    exact ⟨hsv₁.trans hsv, fun hd => hdo₁ (hdo hd), fun sv => (hcount₁ sv).trans (hcount sv)⟩
  new hf o x' hx' ho hloc := by
    by_cases ho₁ : s₁.nextObject ≤ o
    · exact h'.new (h.formed hf) o x' hx' ho₁ hloc
    · obtain ⟨x₁, hx₁, hp₁, hl₁⟩ := h'.old o x' hx' (by omega)
      obtain ⟨hsv, hdo, hnot⟩ := h.new hf o x₁ hx₁ ho (hp₁ ▸ hloc)
      obtain ⟨hsv₁, hdo₁, hcount₁⟩ := hl₁ (hp₁ ▸ hloc)
      refine ⟨hsv₁.trans hsv, hdo₁ hdo, fun sv hmem => hnot sv ?_⟩
      rw [← List.count_pos_iff, ← hcount₁ sv]
      exact List.count_pos_iff.mpr hmem
  served hf o x hx hloc hsv hid := by
    obtain ⟨x₁, hx₁, hid₁⟩ := h.served hf o x hx hloc hsv hid
    have ho : o < s.nextObject := by
      by_contra hn
      rw [hf.bound o (by omega)] at hx
      cases hx
    obtain ⟨y, hy, hp₁, hl₁⟩ := h.old o x₁ hx₁ ho
    cases hx.symm.trans hy
    obtain ⟨x', hx', hid'⟩ := h'.served (h.formed hf) o x₁ hx₁ (hp₁ ▸ hloc)
      ((hl₁ hloc).1 ▸ hsv) (hid₁ ▸ hid)
    exact ⟨x', hx', hid'.trans hid₁⟩
  managed p hm := h'.managed p (h.managed p hm)

theorem State.Quiet.trans (h : s.Quiet w s₁) (h' : s₁.Quiet w s') : s.Quiet w s' where
  toSteady := h.toSteady.trans h'.toSteady
  invocations := h'.invocations.trans h.invocations
  visits := h'.visits.trans h.visits
  queue := h'.queue.trans h.queue
  nextCall := h'.nextCall.trans h.nextCall

/-- Everything else is free to change. -/
theorem State.Steady.congr (ho : s'.objects = s.objects) (hp : s'.privates = s.privates)
    (hn : s'.nextObject = s.nextObject)
    (hm : ∀ p, (∀ e ∈ (s'.poas p).map, e ∈ (s.poas p).map) ∧
      ((s.poas p).servantManager = true → (s'.poas p).servantManager = true)) : s.Steady w s' where
  grown := Nat.le_of_eq hn.symm
  formed hf := by
    refine ⟨?_, ?_, fun p e he => ?_, ?_⟩
    · rw [ho, hn]
      exact hf.bound
    · rw [hp, hn]
      exact hf.listed
    · rw [ho, hn]
      exact hf.entries p e ((hm p).1 e he)
    · rw [ho]
      exact hf.gone
  old o x hx hlt := by
    rw [ho] at hx
    exact ⟨x, hx, rfl, fun _ => ⟨rfl, id, fun sv => by rw [hp]⟩⟩
  new hf o x hx hle _ := by
    rw [ho, hf.bound o hle] at hx
    cases hx
  served hf o x hx _ _ _ := by
    rw [ho]
    exact ⟨x, hx, rfl⟩
  managed p := (hm p).2

theorem State.Steady.refl (s : State) : s.Steady w s := .congr rfl rfl rfl fun _ => ⟨fun _ => id, id⟩

theorem State.Quiet.refl (s : State) : s.Quiet w s := ⟨.refl s, rfl, rfl, rfl, rfl⟩

theorem State.Quiet.setPoa {f : POA → POA} (hf : ∀ a, ∀ e ∈ (f a).map, e ∈ a.map)
    (hm : ∀ a, a.servantManager = true → (f a).servantManager = true) : s.Quiet w (s.setPoa p f) := by
  refine ⟨.congr rfl rfl rfl fun q => ?_, rfl, rfl, rfl, rfl⟩
  rw [State.setPoa_poas]
  split
  · exact ⟨hf _, hm _⟩
  · exact ⟨fun _ => id, id⟩

theorem State.Formed.lt (hf : s.Formed) (hx : s.objects o = some x) : o < s.nextObject := by
  by_contra hge
  rw [hf.bound o (by omega)] at hx
  cases hx

/-- A change at one object, and at its place in the lists. -/
theorem State.Formed.change (hf : s.Formed) (hx : s.objects o = some x)
    (ho : ∀ o', s'.objects o' = if o' = o then some x' else s.objects o')
    (hm : s'.poas = s.poas) (hn : s'.nextObject = s.nextObject) (hp : x'.poa = x.poa)
    (hgone : x'.life.destroyed = true →
      x'.objectId = none ∨ (x'.objectId = x.objectId ∧ x.life.destroyed = true))
    (hlist : ∀ sv o', o' ∈ s'.privates sv → o' = o ∨ o' ∈ s.privates sv) : s'.Formed where
  bound o' hle := by
    have hlt := hf.lt hx
    rw [hn] at hle
    rw [ho, if_neg (by omega)]
    exact hf.bound o' hle
  listed sv o' hmem := by
    rw [hn]
    rcases hlist sv o' hmem with rfl | hmem
    · exact hf.lt hx
    · exact hf.listed sv o' hmem
  entries q e he := by
    rw [hm] at he
    obtain ⟨hlt', hpoa⟩ := hf.entries q e he
    refine ⟨by rw [hn]; exact hlt', fun y hy => ?_⟩
    rw [ho] at hy
    split at hy
    · rename_i heq
      cases hy
      exact hp.trans (hpoa x (heq ▸ hx))
    · exact hpoa y hy
  gone o' y hy hd := by
    rw [ho] at hy
    split at hy
    · cases hy
      rcases hgone hd with h | ⟨he, hd'⟩
      · exact h
      · rw [he]
        exact hf.gone o x hx hd'
    · exact hf.gone o' y hy hd

/-- A change that leaves a servant locator's object its servant. -/
theorem State.Steady.change (hx : s.objects o = some x)
    (ho : ∀ o', s'.objects o' = if o' = o then some x' else s.objects o')
    (hm : s'.poas = s.poas) (hn : s'.nextObject = s.nextObject)
    (hp : x'.poa = x.poa) (hid : x.servant ≠ none → x'.objectId = x.objectId)
    (hgone : x'.life.destroyed = true →
      x'.objectId = none ∨ (x'.objectId = x.objectId ∧ x.life.destroyed = true))
    (hl : w.Locates x.poa → x'.servant = x.servant ∧
      (x.life.deactivateDo = false → x'.life.deactivateDo = false))
    (hlist : ∀ sv o', o' ∈ s'.privates sv → o' = o ∨ o' ∈ s.privates sv)
    (hcount : ∀ sv o', (o' = o → w.Locates x.poa) →
      (s'.privates sv).count o' = (s.privates sv).count o') : s.Steady w s' where
  grown := Nat.le_of_eq hn.symm
  formed hf := hf.change hx ho hm hn hp hgone hlist
  old o' y hy hlt := by
    rw [ho] at hy
    split at hy
    · rename_i he
      cases hy
      subst he
      exact ⟨x, hx, hp, fun hloc => ⟨(hl hloc).1, (hl hloc).2, fun sv => hcount sv o' fun _ => hloc⟩⟩
    · rename_i hne
      exact ⟨y, hy, rfl, fun _ => ⟨rfl, id, fun sv => hcount sv o' fun he => absurd he hne⟩⟩
  new hf o' y hy hle _ := by
    rw [ho] at hy
    split at hy
    · rename_i he
      rw [← he, hf.bound o' hle] at hx
      cases hx
    · rw [hf.bound o' hle] at hy
      cases hy
  served _ o' y hy _ hsv _ := by
    rw [ho]
    split
    · rename_i he
      rw [he, hx] at hy
      cases hy
      exact ⟨x', rfl, hid hsv⟩
    · exact ⟨y, hy, rfl⟩
  managed q h := by
    rw [hm]
    exact h

/-- A change at one object that is no change of its servant. -/
theorem State.Quiet.setObject (hx : s.objects o = some x) (hp : x'.poa = x.poa)
    (hsv : x'.servant = x.servant) (hid : x'.objectId = x.objectId)
    (hd : x'.life.destroyed = x.life.destroyed)
    (hdo : w.Locates x.poa → x.life.deactivateDo = false → x'.life.deactivateDo = false) :
    s.Quiet w (s.setObject o x') where
  toSteady := .change hx (State.setObject_objects s o · x') rfl rfl hp (fun _ => hid)
    (fun h => .inr ⟨hid, hd ▸ h⟩) (fun hloc => ⟨hsv, hdo hloc⟩) (fun _ _ => .inr)
    fun _ _ _ => rfl
  invocations := rfl
  visits := rfl
  queue := rfl
  nextCall := rfl

theorem State.Quiet.lock (hl : s.lock w p = .ok s') : s.Quiet w s' := by
  rcases State.lock_ok hl with rfl | rfl
  · exact .refl _
  · exact .setPoa (fun _ _ => id) fun _ => id

theorem State.Quiet.unlock : s.Quiet w (s.unlock w p) := by
  unfold State.unlock
  split
  · exact .refl s
  · exact .setPoa (fun _ _ => id) fun _ => id

theorem State.Quiet.duplicate (hr : s.duplicate o = .ok s') : s.Quiet w s' := by
  unfold State.duplicate at hr
  obtain ⟨x, hx, hr⟩ := Outcomes.of_bind hr
  cases hr
  exact .setObject (State.object_ok hx) rfl rfl rfl rfl fun _ => id

/-- The last reference goes: the object had no servant. -/
theorem State.Quiet.releaseCb (hx : s.objects o = some x) (hr : s.releaseCb o x = .ok s') :
    s.Quiet w s' := by
  unfold State.releaseCb at hr
  obtain ⟨hsv, hr⟩ := Outcomes.of_guard hr
  have hnone : x.servant = none := Decidable.not_not.mp hsv
  split at hr
  · cases hr
    refine ⟨.change hx (State.setObject_objects s o · _) rfl rfl rfl
      (fun h => absurd hnone h) (fun _ => .inl rfl) (fun _ => ⟨rfl, fun _ => rfl⟩)
      (fun _ _ => .inr) fun _ _ _ => rfl, rfl, rfl, rfl, rfl⟩
  · cases hr
    have hget : ∀ o' y, Function.update s.objects o none o' = some y → o' ≠ o ∧ s.objects o' = some y := by
      intro o' y hy
      by_cases ho : o' = o
      · simp [ho] at hy
      · exact ⟨ho, by simpa [ho] using hy⟩
    have hmap : ∀ q, ∀ e ∈ ((s.setPoa x.poa fun p =>
        { p with map := p.map.filter fun e => s.key e ≠ x.objectId }).poas q).map,
        e ∈ (s.poas q).map := by
      intro q e he
      rw [State.setPoa_poas] at he
      split at he
      · exact (List.mem_filter.mp he).1
      · exact he
    refine ⟨⟨Nat.le_refl _, fun hf => ⟨?_, hf.listed, ?_, ?_⟩, ?_, ?_, ?_, ?_⟩, rfl, rfl, rfl, rfl⟩
    · intro o' hle
      by_contra hne
      obtain ⟨y, hy⟩ := Option.ne_none_iff_exists'.mp hne
      have hb : s.objects o' = none := hf.bound o' hle
      rw [(hget o' y hy).2] at hb
      cases hb
    · intro q e he
      obtain ⟨hlt, hpoa⟩ := hf.entries q e (hmap q e he)
      exact ⟨hlt, fun y hy => hpoa y (hget e.2 y hy).2⟩
    · intro o' y hy
      exact hf.gone o' y (hget o' y hy).2
    · intro o' y hy _
      exact ⟨y, (hget o' y hy).2, rfl, fun _ => ⟨rfl, id, fun _ => rfl⟩⟩
    · intro hf o' y hy hle
      have hb : s.objects o' = none := hf.bound o' hle
      rw [(hget o' y hy).2] at hb
      cases hb
    · intro _ o' y hy _ hsv' _
      by_cases ho : o' = o
      · subst ho
        rw [hx] at hy
        cases hy
        exact absurd hnone hsv'
      · exact ⟨y, by simpa [ho] using hy, rfl⟩
    · intro q hm
      rw [State.setPoa_poas]
      split <;> exact hm

theorem State.Quiet.release (hr : s.release o = .ok s') : s.Quiet w s' := by
  unfold State.release at hr
  obtain ⟨x, hx, hr⟩ := Outcomes.of_bind hr
  obtain ⟨-, hr⟩ := Outcomes.of_guard hr
  split at hr
  · exact .releaseCb (State.object_ok hx) hr
  · cases hr
    exact .setObject (State.object_ok hx) rfl rfl rfl rfl fun _ => id

/-- A new object is put into the map, and has no servant. -/
theorem State.createObject_ok {objid : Option Octets} {random : Octets}
    (hr : s.createObject w p objid random = .ok (s', o)) : ∃ oid, o = s.nextObject ∧
      (∀ o', s'.objects o' = if o' = o then some (.new p oid) else s.objects o') ∧
      (∀ q, ∀ e ∈ (s'.poas q).map, e ∈ (s.poas q).map ∨ (q = p ∧ e.2 = o)) ∧
      s'.privates = s.privates ∧ s'.nextObject = s.nextObject + 1 ∧
      s'.invocations = s.invocations ∧ s'.visits = s.visits ∧ s'.queue = s.queue ∧
      s'.nextCall = s.nextCall ∧
      ∀ q, (s.poas q).servantManager = true → (s'.poas q).servantManager = true := by
  unfold State.createObject at hr
  obtain ⟨oid, -, hr⟩ := Outcomes.of_bind hr
  obtain ⟨-, hr⟩ := Outcomes.of_guard hr
  cases hr
  refine ⟨oid, rfl, fun o' => State.setObject_objects _ _ _ _, fun q e he => ?_,
    rfl, rfl, rfl, rfl, rfl, rfl, fun q hm => ?_⟩
  swap
  · simp only [State.setObject_poas, State.setPoa_poas]
    split <;> exact hm
  simp only [State.setObject_poas, State.setPoa_poas] at he
  split at he
  · rename_i hq
    subst hq
    unfold State.insertEntry at he
    dsimp only at he
    split at he
    · obtain ⟨e', he', rfl⟩ := List.mem_map.mp he
      split
      · exact .inr ⟨rfl, rfl⟩
      · exact .inl he'
    · rcases List.mem_cons.mp he with rfl | he
      · exact .inr ⟨rfl, rfl⟩
      · exact .inl he
  · exact .inl he

theorem State.Quiet.createObject {objid : Option Octets} {random : Octets}
    (hr : s.createObject w p objid random = .ok (s', o)) : s.Quiet w s' := by
  obtain ⟨oid, rfl, hobj, hmap, hpriv, hn, hinv, hvis, hqueue, hcall,
    hmanaged⟩ := State.createObject_ok hr
  have hget : ∀ o' y, s'.objects o' = some y →
      (o' = s.nextObject ∧ y = .new p oid) ∨ (o' ≠ s.nextObject ∧ s.objects o' = some y) := by
    intro o' y hy
    rw [hobj] at hy
    split at hy
    · rename_i he
      cases hy
      exact .inl ⟨he, rfl⟩
    · rename_i hne
      exact .inr ⟨hne, hy⟩
  refine ⟨⟨by omega, fun hf => ⟨?_, ?_, ?_, ?_⟩, ?_, ?_, ?_, hmanaged⟩, hinv, hvis, hqueue, hcall⟩
  · intro o' hle
    rw [hobj, if_neg (by omega)]
    exact hf.bound o' (by omega)
  · intro sv o' hmem
    rw [hpriv] at hmem
    have := hf.listed sv o' hmem
    omega
  · intro q e he
    rcases hmap q e he with he | ⟨rfl, heq⟩
    · obtain ⟨hlt, hpoa⟩ := hf.entries q e he
      refine ⟨by omega, fun y hy => ?_⟩
      rcases hget e.2 y hy with ⟨heq, -⟩ | ⟨-, hy⟩
      · omega
      · exact hpoa y hy
    · refine ⟨by omega, fun y hy => ?_⟩
      rw [heq, hobj, if_pos rfl] at hy
      cases hy
      rfl
  · intro o' y hy hd
    rcases hget o' y hy with ⟨-, rfl⟩ | ⟨-, hy⟩
    · cases hd
    · exact hf.gone o' y hy hd
  · intro o' y hy hlt
    rcases hget o' y hy with ⟨heq, -⟩ | ⟨-, hy⟩
    · omega
    · exact ⟨y, hy, rfl, fun _ => ⟨rfl, id, fun sv => by rw [hpriv]⟩⟩
  · intro hf o' y hy hle _
    rcases hget o' y hy with ⟨heq, rfl⟩ | ⟨-, hy⟩
    · refine ⟨rfl, rfl, fun sv hmem => ?_⟩
      rw [hpriv] at hmem
      have := hf.listed sv o' hmem
      omega
    · rw [hf.bound o' hle] at hy
      cases hy
  · intro hf o' y hy _ _ _
    have hne : o' ≠ s.nextObject := by
      rintro rfl
      rw [hf.bound _ (Nat.le_refl _)] at hy
      cases hy
    exact ⟨y, by rw [hobj, if_neg hne, hy], rfl⟩

/-- A servant is put into an object of a POA that finds its servants otherwise. -/
theorem State.Quiet.link {servant : Nat} (hx : s.objects o = some x) (hloc : ¬ w.Locates x.poa)
    (hp : x'.poa = x.poa) (hid : x'.objectId = x.objectId)
    (hd : x'.life.destroyed = x.life.destroyed) : s.Quiet w (s.link o x' servant) where
  toSteady := by
    refine .change hx (State.setObject_objects s o · _) rfl rfl hp (fun _ => hid)
      (fun h => .inr ⟨hid, hd ▸ h⟩) (fun h => absurd h hloc) (fun sv o' hmem => ?_)
      fun sv o' hne => ?_
    · by_cases hsv : sv = servant
      · subst hsv
        simp only [State.link, Function.update_self, List.mem_cons] at hmem
        exact hmem
      · simp only [State.link, Function.update_of_ne hsv] at hmem
        exact .inr hmem
    · have ho : o' ≠ o := fun he => hloc (hne he)
      by_cases hsv : sv = servant
      · subst hsv
        simp [State.link, Ne.symm ho]
      · simp [State.link, hsv]
  invocations := rfl
  visits := rfl
  queue := rfl
  nextCall := rfl

theorem State.Quiet.unlink {servant : Nat} (hx : s.objects o = some x) (hloc : ¬ w.Locates x.poa)
    (hp : x'.poa = x.poa) (hid : x'.objectId = x.objectId)
    (hd : x'.life.destroyed = x.life.destroyed) (hr : s.unlink o x' servant = .ok s') :
    s.Quiet w s' := by
  unfold State.unlink at hr
  split at hr
  · cases hr
    refine ⟨.change hx (State.setObject_objects s o · _) rfl rfl hp (fun _ => hid)
      (fun h => .inr ⟨hid, hd ▸ h⟩) (fun h => absurd h hloc) (fun sv o' hmem => ?_)
      fun sv o' hne => ?_, rfl, rfl, rfl, rfl⟩
    · by_cases hsv : sv = servant
      · subst hsv
        simp only [Function.update_self] at hmem
        exact .inr (List.mem_of_mem_erase hmem)
      · simp only [Function.update_of_ne hsv] at hmem
        exact .inr hmem
    · have ho : o' ≠ o := fun he => hloc (hne he)
      by_cases hsv : sv = servant
      · subst hsv
        simp [List.count_erase_of_ne ho]
      · simp [hsv]
  · cases hr

theorem State.Quiet.activateObject {servant : Option Nat} (hx : s.objects o = some x)
    (hloc : ¬ w.Locates x.poa) (hr : s.activateObject w p o servant = .ok s') : s.Quiet w s' := by
  obtain ⟨y, sv, hy, -, -, -, rfl⟩ := State.activateObject_ok hr
  cases hx.symm.trans hy
  exact .link hx hloc rfl rfl rfl

theorem State.Quiet.objToRef {intf : Bool} (hr : s.objToRef o intf = .ok s') : s.Quiet w s' := by
  unfold State.objToRef at hr
  obtain ⟨x, hx, hr⟩ := Outcomes.of_bind hr
  obtain ⟨-, hr⟩ := Outcomes.of_guard hr
  cases hr
  exact .setObject (State.object_ok hx) rfl rfl rfl rfl fun _ => id

theorem State.Quiet.duplicateReference (hr : s.duplicateReference o = .ok s') : s.Quiet w s' := by
  unfold State.duplicateReference at hr
  obtain ⟨x, hx, hr⟩ := Outcomes.of_bind hr
  split at hr
  · cases hr
  · cases hr
    exact .setObject (State.object_ok hx) rfl rfl rfl rfl fun _ => id

theorem State.Quiet.releaseReference (hr : s.releaseReference o = .ok s') : s.Quiet w s' := by
  unfold State.releaseReference at hr
  obtain ⟨x, hx, hr⟩ := Outcomes.of_bind hr
  split at hr
  · cases hr
  · split at hr
    · have h : s.Quiet w (s.setObject o { x with objref := none }) :=
        .setObject (State.object_ok hx) rfl rfl rfl rfl fun _ => id
      exact h.trans (.release hr)
    · cases hr
      exact .setObject (State.object_ok hx) rfl rfl rfl rfl fun _ => id

theorem State.Quiet.referenceFor (hr : s.referenceFor o = .ok s') : s.Quiet w s' := by
  unfold State.referenceFor at hr
  obtain ⟨x, -, hr⟩ := Outcomes.of_bind hr
  split at hr
  · exact .duplicateReference hr
  · exact .objToRef hr

theorem State.Quiet.endDeactivateObject (hr : s.endDeactivateObject o = .ok s') : s.Quiet w s' := by
  unfold State.endDeactivateObject at hr
  obtain ⟨x, hx, hr⟩ := Outcomes.of_bind hr
  have h : s.Quiet w (s.setObject o { x with life := x.life.clear }) :=
    .setObject (State.object_ok hx) rfl rfl rfl rfl fun _ _ => rfl
  exact h.trans (.release hr)

theorem State.Quiet.endEtherealize {raised : Bool} (hr : s.endEtherealize o raised = .ok s') :
    s.Quiet w s' := by
  unfold State.endEtherealize at hr
  obtain ⟨x, hx, hr⟩ := Outcomes.of_bind hr
  obtain ⟨-, hr⟩ := Outcomes.of_guard hr
  have h : s.Quiet w (s.setObject o
      { x with useCnt := (x.useCnt + (useCntMod - 1)) % useCntMod }) :=
    .setObject (State.object_ok hx) rfl rfl rfl rfl fun _ => id
  exact h.trans (.endDeactivateObject hr)

theorem State.Quiet.callFinalize {servant : Nat} {raised : Bool}
    (hr : s.callFinalize w p o servant raised = .ok (s', ls)) : s.Quiet w s' := by
  unfold State.callFinalize at hr
  split at hr
  · cases hr
    exact .unlock
  · obtain ⟨s₁, hs₁, hr⟩ := Outcomes.of_bind hr
    cases hr
    exact .endEtherealize hs₁

theorem State.Quiet.etherealizeObject {servant : Nat}
    (hr : s.etherealizeObject w p o servant = .ok (s', ls)) : s.Quiet w s' := by
  unfold State.etherealizeObject at hr
  obtain ⟨x, hx, hr⟩ := Outcomes.of_bind hr
  split at hr
  · have h : s.Quiet w (s.setObject o { x with useCnt := x.useCnt + 1 }) :=
      .setObject (State.object_ok hx) rfl rfl rfl rfl fun _ => id
    dsimp only at hr
    split at hr
    · split at hr
      · cases hr
        exact h
      · cases hr
    · exact h.trans (.callFinalize hr)
  · obtain ⟨s₁, hs₁, hr⟩ := Outcomes.of_bind hr
    cases hr
    exact .endDeactivateObject hs₁

theorem State.Quiet.deactivateObject {etherealize cleanup : Bool} (hx : s.objects o = some x)
    (hloc : ¬ w.Locates x.poa) (hr : s.deactivateObject w p o etherealize cleanup = .ok (s', ls)) :
    s.Quiet w s' := by
  unfold State.deactivateObject at hr
  obtain ⟨y, hy, hr⟩ := Outcomes.of_bind hr
  cases hx.symm.trans (State.object_ok hy)
  split at hr
  · cases hr
    exact .refl s
  · dsimp only at hr
    split at hr
    · cases hr
      exact .setObject hx rfl rfl rfl rfl fun h => absurd h hloc
    · obtain ⟨s₁, hs₁, hr⟩ := Outcomes.of_bind hr
      have h₁ : s.Quiet w s₁ := by
        refine .unlink hx hloc ?_ ?_ ?_ hs₁ <;> rfl
      exact h₁.trans (.etherealizeObject hr)

theorem State.Quiet.finalized {raised : Bool} (hr : s.finalized w p o raised = .ok s') :
    s.Quiet w s' := by
  unfold State.finalized at hr
  obtain ⟨s₁, hs₁, hr⟩ := Outcomes.of_bind hr
  exact .trans (.lock hs₁) (.endEtherealize hr)

theorem State.Quiet.setLife {f : PoaLife → PoaLife} : s.Quiet w (s.setLife p f) :=
  .setPoa (fun _ _ => id) fun _ => id

theorem State.Quiet.handleHeldRequests (hr : s.handleHeldRequests p = .ok s') : s.Quiet w s' := by
  unfold State.handleHeldRequests at hr
  split at hr
  · cases hr
    exact .refl s
  · cases hr

theorem State.Quiet.afterDeactivate {done : Bool} {caller : Deactivator}
    (hr : s.afterDeactivate w p done caller = .ok (s', ls)) : s.Quiet w s' := by
  unfold State.afterDeactivate at hr
  split at hr
  · cases hr
    exact .refl s
  · split at hr
    · cases hr
      have h : s.Quiet w (s.setLife p fun l => { l with destroyed := true, destroying := false }) :=
        .setLife
      exact ⟨.congr rfl rfl rfl fun q => by
        rw [State.setLife, State.setPoa_poas]
        split <;> exact ⟨fun _ => id, id⟩, h.invocations, h.visits, h.queue, h.nextCall⟩
    · cases hr
      exact .setLife

theorem State.Quiet.deactivate {etherealize : Bool} {caller : Deactivator}
    (hr : s.deactivate w p etherealize caller = .ok (s', ls)) : s.Quiet w s' := by
  unfold State.deactivate at hr
  dsimp only at hr
  split at hr
  · exact .trans .setLife (.afterDeactivate hr)
  · split at hr
    · exact .trans .setLife (.afterDeactivate hr)
    · obtain ⟨s₁, hs₁, hr⟩ := Outcomes.of_bind hr
      cases hr
      exact .trans .setLife (.trans .setLife (.handleHeldRequests hs₁))

/-- Only destroyed objects are taken out. -/
theorem State.Quiet.removeCb : s.Quiet w (s.removeCb p) := by
  have hget : ∀ o y, (s.removeCb p).objects o = some y → s.objects o = some y := by
    intro o y hy
    unfold State.removeCb at hy
    dsimp only at hy
    split at hy
    · cases hy
    · exact hy
  have hmap : ∀ q, ∀ e ∈ ((s.removeCb p).poas q).map, e ∈ (s.poas q).map := by
    intro q e he
    unfold State.removeCb at he
    simp only [State.setPoa_poas] at he
    split at he
    · exact (List.mem_filter.mp he).1
    · exact he
  refine ⟨⟨Nat.le_refl _, fun hf => ⟨?_, hf.listed, ?_, ?_⟩, ?_, ?_, ?_, ?_⟩, rfl, rfl, rfl, rfl⟩
  · intro o hle
    cases hy : (s.removeCb p).objects o with
    | none => rfl
    | some y =>
      have hb : s.objects o = none := hf.bound o hle
      rw [hget o y hy] at hb
      cases hb
  · intro q e he
    obtain ⟨hlt, hpoa⟩ := hf.entries q e (hmap q e he)
    exact ⟨hlt, fun y hy => hpoa y (hget e.2 y hy)⟩
  · intro o y hy
    exact hf.gone o y (hget o y hy)
  · intro o y hy _
    exact ⟨y, hget o y hy, rfl, fun _ => ⟨rfl, id, fun _ => rfl⟩⟩
  · intro hf o y hy hle
    have hb : s.objects o = none := hf.bound o hle
    rw [hget o y hy] at hb
    cases hb
  · intro hf o y hy _ _ hid
    have hkept : y.life.destroyed = false := by
      cases hd : y.life.destroyed with
      | false => rfl
      | true => exact absurd (hf.gone o y hy hd) hid
    refine ⟨y, ?_, rfl⟩
    simp [State.removeCb, hy, hkept]
  · intro q hm
    unfold State.removeCb
    rw [State.setPoa_poas]
    split <;> exact hm

theorem State.Quiet.traverse {rest : List Nat} {inUse etherealize : Bool} {caller : Deactivator}
    (hr : s.traverse w p rest inUse etherealize caller = .ok (s', ls)) : s.Quiet w s' := by
  unfold State.traverse at hr
  split at hr
  · obtain ⟨x, -, hr⟩ := Outcomes.of_bind hr
    cases hr
    exact .refl s
  · have h : s.Quiet w (if (w.policies p).retain then s.removeCb p else s) := by
      split
      · exact .removeCb
      · exact .refl s
    exact .trans h (.trans .setLife (.afterDeactivate hr))

theorem State.Quiet.destroy {etherealize : Bool} (hr : s.destroy w p etherealize = (s', ls)) :
    s.Quiet w s' := by
  unfold State.destroy at hr
  dsimp only at hr
  split at hr
  · cases hr
    exact .setLife
  · cases hr
    exact .trans .setLife (.trans .setLife .unlock)

theorem State.Quiet.destroyChildren {etherealize : Bool} {i : Nat}
    (hr : s.destroyChildren w p etherealize i = .ok (s', ls)) : s.Quiet w s' := by
  unfold State.destroyChildren at hr
  split at hr
  · dsimp only at hr
    split at hr
    · cases hr
      exact .refl s
    · obtain ⟨locked, hlocked, hr⟩ := Outcomes.of_bind hr
      split at hr
      · cases hr
        exact .lock hlocked
      · cases hr
        exact .refl s
  · obtain ⟨s₁, hs₁, hr⟩ := Outcomes.of_bind hr
    have h₁ : s₁.Quiet w (s₁.setPoa p fun x => { x with defaultServant := none }) :=
      .setPoa (fun _ _ => id) fun _ => id
    dsimp only at hr
    split at hr
    · cases hr
      exact .trans (.lock hs₁) (.trans h₁ .setLife)
    · cases hr
      exact .trans (.lock hs₁) h₁

/-- What a POA retains or activates implicitly is none of a servant locator's. -/
theorem not_locates_of_retain (h : (w.policies p).retain = true) : ¬ w.Locates p := by
  rintro ⟨h', -⟩
  rw [h] at h'
  cases h'

theorem State.Quiet.createActive {objid : Option Octets} {random : Octets} {servant : Option Nat}
    (hret : (w.policies p).retain = true) (hc : s.createObject w p objid random = .ok (s₁, o))
    (ha : s₁.activateObject w p o servant = .ok s') : s.Quiet w s' := by
  obtain ⟨oid, -, hobj, -⟩ := State.createObject_ok hc
  have hx : s₁.objects o = some (.new p oid) := by rw [hobj, if_pos rfl]
  have hloc : ¬ w.Locates p := not_locates_of_retain hret
  exact .trans (.createObject hc) (.activateObject hx hloc ha)

theorem State.Quiet.poaActivateObject {servant : Nat} {random : Octets} {r : Result}
    (hr : s.poaActivateObject w p servant random = .ok (s', r)) : s.Quiet w s' := by
  unfold State.poaActivateObject at hr
  obtain ⟨s₁, hs₁, hr⟩ := Outcomes.of_bind hr
  split at hr
  · cases hr
    exact .lock hs₁
  · rename_i hpol
    split at hr
    · cases hr
      exact .lock hs₁
    · obtain ⟨⟨s₂, o⟩, hs₂, hr⟩ := Outcomes.of_bind hr
      obtain ⟨s₃, hs₃, hr⟩ := Outcomes.of_bind hr
      cases hr
      have hret : (w.policies p).retain = true := by
        rw [not_or] at hpol
        exact (Bool.not_eq_false _).mp hpol.1
      exact .trans (.lock hs₁) (.trans (.createActive hret hs₂ hs₃) .unlock)

/-- An object that is found belongs to the POA. -/
theorem State.Formed.found (hf : s.Formed) {oid : Octets}
    (hl : s.objectIdLookup p oid = .ok (some o)) :
    o < s.nextObject ∧ ∀ x, s.objects o = some x → x.poa = p := by
  unfold State.objectIdLookup at hl
  obtain ⟨-, hl⟩ := Outcomes.of_guard hl
  obtain ⟨e, he, rfl⟩ := Option.map_eq_some_iff.mp (Except.ok.inj hl)
  exact hf.entries p e (List.mem_of_find?_eq_some he)

theorem State.Quiet.poaActivateObjectWithId {oid : Octets} {servant : Nat} {r : Result}
    (hf : s.Formed) (hr : s.poaActivateObjectWithId w p oid servant = .ok (s', r)) :
    s.Quiet w s' := by
  unfold State.poaActivateObjectWithId at hr
  obtain ⟨s₁, hs₁, hr⟩ := Outcomes.of_bind hr
  have h₁ : s.Quiet w s₁ := .lock hs₁
  split at hr
  · cases hr
    exact h₁
  · rename_i hret
    have hret := (Bool.not_eq_false _).mp hret
    obtain ⟨found, hfound, hr⟩ := Outcomes.of_bind hr
    split at hr
    · split at hr
      · cases hr
        exact h₁.trans .unlock
      · obtain ⟨⟨s₂, o⟩, hs₂, hr⟩ := Outcomes.of_bind hr
        obtain ⟨s₃, hs₃, hr⟩ := Outcomes.of_bind hr
        cases hr
        exact h₁.trans (.trans (.createActive hret hs₂ hs₃) .unlock)
    · rename_i o
      obtain ⟨s₂, hs₂, hr⟩ := Outcomes.of_bind hr
      have h₂ : s.Quiet w s₂ := h₁.trans (.duplicate hs₂)
      obtain ⟨x, hx, hr⟩ := Outcomes.of_bind hr
      have hx := State.object_ok hx
      have hpoa : x.poa = p := by
        obtain ⟨hlt, hpoa⟩ := (h₁.formed hf).found hfound
        obtain ⟨y, hy, he, -⟩ := (State.Quiet.duplicate (w := w) hs₂).old o x hx hlt
        exact he.trans (hpoa y hy)
      split at hr
      · obtain ⟨s₃, hs₃, hr⟩ := Outcomes.of_bind hr
        cases hr
        exact h₂.trans (.trans (.release hs₃) .unlock)
      · split at hr
        · obtain ⟨s₃, hs₃, hr⟩ := Outcomes.of_bind hr
          cases hr
          exact h₂.trans (.trans (.release hs₃) .unlock)
        · obtain ⟨s₃, hs₃, hr⟩ := Outcomes.of_bind hr
          obtain ⟨s₄, hs₄, hr⟩ := Outcomes.of_bind hr
          cases hr
          have hloc : ¬ w.Locates x.poa := hpoa ▸ not_locates_of_retain hret
          exact h₂.trans (.trans (.activateObject hx hloc hs₃) (.trans (.release hs₄) .unlock))

theorem State.Quiet.poaDeactivateObject {oid : Octets} {r : Result}
    (hr : s.poaDeactivateObject w p oid = .ok (s', ls, r)) : s.Quiet w s' := by
  unfold State.poaDeactivateObject at hr
  obtain ⟨s₁, hs₁, hr⟩ := Outcomes.of_bind hr
  split at hr
  · cases hr
    exact .lock hs₁
  · obtain ⟨found, -, hr⟩ := Outcomes.of_bind hr
    split at hr
    · cases hr
      exact .trans (.lock hs₁) .unlock
    · obtain ⟨s₂, hs₂, hr⟩ := Outcomes.of_bind hr
      cases hr
      exact .trans (.lock hs₁) (.duplicate hs₂)

theorem State.Quiet.poaCreateReference {intf : Bool} {random : Octets} {r : Result}
    (hr : s.poaCreateReference w p intf random = .ok (s', r)) : s.Quiet w s' := by
  unfold State.poaCreateReference at hr
  obtain ⟨s₁, hs₁, hr⟩ := Outcomes.of_bind hr
  split at hr
  · cases hr
    exact .lock hs₁
  · obtain ⟨⟨s₂, o⟩, hs₂, hr⟩ := Outcomes.of_bind hr
    obtain ⟨s₃, hs₃, hr⟩ := Outcomes.of_bind hr
    cases hr
    exact .trans (.lock hs₁) (.trans (.createObject hs₂) (.trans (.objToRef hs₃) .unlock))

theorem State.Quiet.poaCreateReferenceWithId {oid : Octets} {intf : Bool} {r : Result}
    (hr : s.poaCreateReferenceWithId w p oid intf = .ok (s', r)) : s.Quiet w s' := by
  unfold State.poaCreateReferenceWithId at hr
  obtain ⟨s₁, hs₁, hr⟩ := Outcomes.of_bind hr
  obtain ⟨found, -, hr⟩ := Outcomes.of_bind hr
  split at hr
  · obtain ⟨made, -, hr⟩ := Outcomes.of_bind hr
    cases hr
  · obtain ⟨s₂, hs₂, hr⟩ := Outcomes.of_bind hr
    obtain ⟨s₃, hs₃, hr⟩ := Outcomes.of_bind hr
    obtain ⟨s₄, hs₄, hr⟩ := Outcomes.of_bind hr
    cases hr
    exact .trans (.lock hs₁) (.trans (.duplicate hs₂) (.trans (.objToRef hs₃)
      (.trans (.release hs₄) .unlock)))

theorem State.Quiet.activateImplicitly {servant : Nat} {random : Octets}
    (hret : (w.policies p).retain = true)
    (hr : s.activateImplicitly w p servant random = .ok (s', o)) : s.Quiet w s' := by
  unfold State.activateImplicitly at hr
  obtain ⟨⟨s₁, o'⟩, hs₁, hr⟩ := Outcomes.of_bind hr
  obtain ⟨s₂, hs₂, hr⟩ := Outcomes.of_bind hr
  cases hr
  exact .createActive hret hs₁ hs₂

theorem State.Quiet.servantId {servant : Nat} {random : Octets} {oid : Option Octets}
    (hr : s.servantId w p servant random = .ok (s', oid)) : s.Quiet w s' := by
  unfold State.servantId at hr
  obtain ⟨found, -, hr⟩ := Outcomes.of_bind hr
  split at hr
  · cases hr
    exact .refl s
  · split at hr
    · rename_i hpol
      obtain ⟨⟨s₁, o⟩, hs₁, hr⟩ := Outcomes.of_bind hr
      cases hr
      exact .activateImplicitly hpol.1 hs₁
    · obtain ⟨oid', -, hr⟩ := Outcomes.of_bind hr
      cases hr
      exact .refl s

theorem State.Quiet.poaServantToId {servant : Option Nat} {random : Octets} {r : Result}
    (hr : s.poaServantToId w p servant random = .ok (s', r)) : s.Quiet w s' := by
  unfold State.poaServantToId at hr
  cases servant with
  | none => cases hr
  | some servant =>
    obtain ⟨s₁, hs₁, hr⟩ := Outcomes.of_bind hr
    split at hr
    · cases hr
      exact .lock hs₁
    · obtain ⟨⟨s₂, oid⟩, hs₂, hr⟩ := Outcomes.of_bind hr
      cases hr
      exact .trans (.lock hs₁) (.trans (.servantId hs₂) .unlock)

theorem State.Quiet.invocationStackLookupObjref {servant : Nat} {found : Option Nat}
    (hr : s.invocationStackLookupObjref servant = .ok (s', found)) : s.Quiet w s' := by
  unfold State.invocationStackLookupObjref at hr
  refine Outcomes.foldlM_ok (P := fun found : State × Option Nat => s.Quiet w found.1) ?_
    (.refl s) hr
  intro found o found' h hr
  obtain ⟨x, -, hr⟩ := Outcomes.of_bind hr
  split at hr
  · obtain ⟨s₁, hs₁, hr⟩ := Outcomes.of_bind hr
    cases hr
    exact .trans h (.objToRef hs₁)
  · cases hr
    exact h

theorem State.Quiet.servantReference {servant : Nat} {random : Octets} {found : Option Nat}
    (hret : (w.policies p).retain = true)
    (hr : s.servantReference w p servant random = .ok (s', found)) : s.Quiet w s' := by
  unfold State.servantReference at hr
  dsimp only at hr
  split at hr
  · obtain ⟨s₁, hs₁, hr⟩ := Outcomes.of_bind hr
    cases hr
    exact .referenceFor hs₁
  · split at hr
    · obtain ⟨⟨s₁, o⟩, hs₁, hr⟩ := Outcomes.of_bind hr
      obtain ⟨s₂, hs₂, hr⟩ := Outcomes.of_bind hr
      cases hr
      exact .trans (.activateImplicitly hret hs₁) (.objToRef hs₂)
    · exact .invocationStackLookupObjref hr

theorem State.Quiet.poaServantToReference {servant : Option Nat} {random : Octets} {r : Result}
    (hr : s.poaServantToReference w p servant random = .ok (s', r)) : s.Quiet w s' := by
  unfold State.poaServantToReference at hr
  cases servant with
  | none => cases hr
  | some servant =>
    obtain ⟨s₁, hs₁, hr⟩ := Outcomes.of_bind hr
    split at hr
    · cases hr
      exact .lock hs₁
    · rename_i hpol
      obtain ⟨⟨s₂, o⟩, hs₂, hr⟩ := Outcomes.of_bind hr
      cases hr
      have hret := (Decidable.not_not.mp hpol).1
      exact .trans (.lock hs₁) (.trans (.servantReference hret hs₂) .unlock)

theorem State.Quiet.servantWithId {oid : Octets} {servant : Option Nat}
    (hr : s.servantWithId p oid = .ok (s', servant)) : s.Quiet w s' := by
  unfold State.servantWithId at hr
  obtain ⟨found, -, hr⟩ := Outcomes.of_bind hr
  split at hr
  · obtain ⟨s₁, hs₁, hr⟩ := Outcomes.of_bind hr
    obtain ⟨x, -, hr⟩ := Outcomes.of_bind hr
    obtain ⟨s₂, hs₂, hr⟩ := Outcomes.of_bind hr
    cases hr
    exact .trans (.duplicate hs₁) (.release hs₂)
  · cases hr
    exact .refl s

theorem State.Quiet.poaIdToServant {oid : Octets} {r : Result}
    (hr : s.poaIdToServant w p oid = .ok (s', r)) : s.Quiet w s' := by
  unfold State.poaIdToServant at hr
  obtain ⟨s₁, hs₁, hr⟩ := Outcomes.of_bind hr
  split at hr
  · cases hr
    exact .lock hs₁
  · split at hr
    · obtain ⟨⟨s₂, servant⟩, hs₂, hr⟩ := Outcomes.of_bind hr
      cases hr
      exact .trans (.lock hs₁) (.trans (.servantWithId hs₂) .unlock)
    · cases hr
      exact .trans (.lock hs₁) .unlock

theorem State.Quiet.poaIdToReference {oid : Octets} {r : Result}
    (hr : s.poaIdToReference w p oid = .ok (s', r)) : s.Quiet w s' := by
  unfold State.poaIdToReference at hr
  obtain ⟨s₁, hs₁, hr⟩ := Outcomes.of_bind hr
  have h₁ : s.Quiet w s₁ := .lock hs₁
  split at hr
  · cases hr
    exact h₁
  · obtain ⟨found, -, hr⟩ := Outcomes.of_bind hr
    split at hr
    · cases hr
      exact h₁.trans .unlock
    · obtain ⟨s₂, hs₂, hr⟩ := Outcomes.of_bind hr
      have h₂ : s.Quiet w s₂ := h₁.trans (.duplicate hs₂)
      obtain ⟨x, -, hr⟩ := Outcomes.of_bind hr
      split at hr
      · obtain ⟨s₃, hs₃, hr⟩ := Outcomes.of_bind hr
        cases hr
        exact h₂.trans (.trans (.release hs₃) .unlock)
      · obtain ⟨s₃, hs₃, hr⟩ := Outcomes.of_bind hr
        obtain ⟨s₄, hs₄, hr⟩ := Outcomes.of_bind hr
        cases hr
        exact h₂.trans (.trans (.referenceFor hs₃) (.trans (.release hs₄) .unlock))

theorem State.Quiet.poaDestroy {etherealize wait : Bool} {r : Result}
    (hr : s.poaDestroy w p etherealize wait = .ok (s', ls, r)) : s.Quiet w s' := by
  unfold State.poaDestroy at hr
  obtain ⟨s₁, hs₁, hr⟩ := Outcomes.of_bind hr
  dsimp only at hr
  split at hr
  · cases hr
    exact .trans (.lock hs₁) .unlock
  · obtain ⟨-, hr⟩ := Outcomes.of_guard hr
    split at hr
    · cases hr
      exact .trans (.lock hs₁) .unlock
    · cases hr
      exact .lock hs₁

theorem State.Quiet.poaCreate : s.Quiet w (s.poaCreate w p) := by
  unfold State.poaCreate
  split
  · exact .refl s
  · refine ⟨.congr rfl rfl rfl fun q => ?_, rfl, rfl, rfl, rfl⟩
    rw [State.setPoa_poas]
    split <;> exact ⟨fun _ => id, id⟩

theorem State.Quiet.managerActivate {m : Nat} {r : Result}
    (hr : s.managerActivate m = .ok (s', r)) : s.Quiet w s' := by
  unfold State.managerActivate at hr
  split at hr
  · cases hr
    exact .refl s
  · obtain ⟨s₁, hs₁, hr⟩ := Outcomes.of_bind hr
    cases hr
    have h : s.Quiet w (s.setManagerState m .active) :=
      ⟨.congr rfl rfl rfl fun _ => ⟨fun _ => id, id⟩, rfl, rfl, rfl, rfl⟩
    refine Outcomes.foldlM_ok (P := fun s₁ => s.Quiet w s₁) ?_ h hs₁
    intro s₁ p s₂ h hr
    exact .trans h (.handleHeldRequests hr)

theorem State.Quiet.managerSuspend {m : Nat} {state : POAManagerState} {r : Result}
    (hr : s.managerSuspend m state = (s', r)) : s.Quiet w s' := by
  unfold State.managerSuspend at hr
  split at hr
  · cases hr
    exact .refl s
  · cases hr
    exact ⟨.congr rfl rfl rfl fun _ => ⟨fun _ => id, id⟩, rfl, rfl, rfl, rfl⟩

theorem State.Quiet.managerDeactivate {m : Nat} {etherealize wait : Bool} {r : Result}
    (hr : s.managerDeactivate w m etherealize wait = .ok (s', ls, r)) : s.Quiet w s' := by
  unfold State.managerDeactivate at hr
  dsimp only at hr
  split at hr
  · cases hr
    exact .refl s
  · obtain ⟨-, hr⟩ := Outcomes.of_guard hr
    split at hr
    · cases hr
      exact .refl s
    · cases hr
      exact ⟨.congr rfl rfl rfl fun _ => ⟨fun _ => id, id⟩, rfl, rfl, rfl, rfl⟩

/-- A request with its object is to be handled here, or in another thread, or there is none. -/
def State.Assigned (w : World) (s : State) (p opname : Nat) (s' : State) (ls : List Task) : Prop :=
  ∃ s₁, s.Quiet w s₁ ∧ ((s' = s₁ ∧ ls = []) ∨
    ∃ o, o < s₁.nextObject ∧ (∀ x, s₁.objects o = some x → x.poa = p) ∧
      ((s' = s₁ ∧ ls = Call.tasks ⟨p, o, opname, true, s.nextCall⟩) ∨
        (s' = { s₁ with queue := s₁.queue ++ [⟨p, o, opname, true, s.nextCall⟩] } ∧ ls = [])))

theorem State.assign_ok {oid : Octets} {opname : Nat} (hf : s.Formed)
    (hr : s.assign w p oid opname = .ok (s', ls)) : s.Assigned w p opname s' ls := by
  have hschedule : ∀ {s₁ : State} {o : Nat}, s.Quiet w s₁ → o < s₁.nextObject →
      (∀ x, s₁.objects o = some x → x.poa = p) →
      s₁.schedule w p ⟨p, o, opname, true, s.nextCall⟩ = .ok (s', ls) →
      s.Assigned w p opname s' ls := by
    intro s₁ o h₁ ho hp hr
    refine ⟨s₁, h₁, .inr ⟨o, ho, hp, ?_⟩⟩
    rcases State.schedule_ok hr with he | he
    · cases he
      exact .inl ⟨rfl, rfl⟩
    · cases he
      exact .inr ⟨rfl, rfl⟩
  unfold State.assign at hr
  obtain ⟨found, hfound, hr⟩ := Outcomes.of_bind hr
  split at hr
  · rename_i o
    obtain ⟨s₁, hs₁, hr⟩ := Outcomes.of_bind hr
    have h₁ : s.Quiet w s₁ := .duplicate hs₁
    obtain ⟨hlt, hpoa⟩ := hf.found hfound
    refine hschedule h₁ (Nat.lt_of_lt_of_le hlt h₁.grown) (fun x hx => ?_) hr
    obtain ⟨y, hy, he, -⟩ := h₁.old o x hx hlt
    exact he.trans (hpoa y hy)
  · split at hr
    · cases hr
      exact ⟨s, .refl s, .inl ⟨rfl, rfl⟩⟩
    · obtain ⟨⟨s₁, o⟩, hs₁, hr⟩ := Outcomes.of_bind hr
      obtain ⟨oid', ho, hobj, -, -, hn, -, -, -, hcall, -⟩ := State.createObject_ok hs₁
      dsimp only at hr
      rw [hcall] at hr
      refine hschedule (.createObject hs₁) (by omega) (fun x hx => ?_) hr
      rw [hobj, if_pos rfl] at hx
      cases hx
      rfl

/-- Operations that bring a request. -/
def Operation.Requests : Operation → Prop
  | .invoke _ _ | .incoming _ _ _ | .serve _ => True
  | _ => False

/-- No operation does anything at the objects of a servant locator. -/
theorem State.Quiet.perform {op : Operation} {r : Result} (hf : s.Formed) (hop : ¬ op.Requests)
    (hr : s.perform w op = .ok (s', ls, r)) : s.Quiet w s' := by
  cases op <;> simp only [State.perform] at hr
  case createPOA p =>
    cases hr
    exact .poaCreate
  case setThreadHint p hint =>
    cases hr
    exact .setPoa (fun _ _ => id) fun _ => id
  case setServant p servant =>
    cases hr
    exact .setPoa (fun _ _ => id) fun _ => id
  case setServantManager p =>
    split at hr
    · cases hr
      exact .refl s
    · cases hr
      exact .setPoa (fun _ _ => id) fun _ _ => rfl
  case activateObject p servant random =>
    obtain ⟨⟨s₁, r₁⟩, hs₁, hr⟩ := Outcomes.of_bind hr
    cases hr
    exact .poaActivateObject hs₁
  case activateObjectWithId p oid servant =>
    obtain ⟨⟨s₁, r₁⟩, hs₁, hr⟩ := Outcomes.of_bind hr
    cases hr
    exact .poaActivateObjectWithId hf hs₁
  case deactivateObject p oid => exact .poaDeactivateObject hr
  case createReference p intf random =>
    obtain ⟨⟨s₁, r₁⟩, hs₁, hr⟩ := Outcomes.of_bind hr
    cases hr
    exact .poaCreateReference hs₁
  case createReferenceWithId p oid intf =>
    obtain ⟨⟨s₁, r₁⟩, hs₁, hr⟩ := Outcomes.of_bind hr
    cases hr
    exact .poaCreateReferenceWithId hs₁
  case servantToId p servant random =>
    obtain ⟨⟨s₁, r₁⟩, hs₁, hr⟩ := Outcomes.of_bind hr
    cases hr
    exact .poaServantToId hs₁
  case servantToReference p servant random =>
    obtain ⟨⟨s₁, r₁⟩, hs₁, hr⟩ := Outcomes.of_bind hr
    cases hr
    exact .poaServantToReference hs₁
  case referenceToServant p reference =>
    obtain ⟨r₁, -, hr⟩ := Outcomes.of_bind hr
    cases hr
    exact .refl s
  case referenceToId p reference =>
    obtain ⟨r₁, -, hr⟩ := Outcomes.of_bind hr
    cases hr
    exact .refl s
  case idToServant p oid =>
    obtain ⟨⟨s₁, r₁⟩, hs₁, hr⟩ := Outcomes.of_bind hr
    cases hr
    exact .poaIdToServant hs₁
  case idToReference p oid =>
    obtain ⟨⟨s₁, r₁⟩, hs₁, hr⟩ := Outcomes.of_bind hr
    cases hr
    exact .poaIdToReference hs₁
  case currentGetPOA =>
    obtain ⟨r₁, -, hr⟩ := Outcomes.of_bind hr
    cases hr
    exact .refl s
  case currentGetObjectId =>
    obtain ⟨r₁, -, hr⟩ := Outcomes.of_bind hr
    cases hr
    exact .refl s
  case destroy p etherealize wait => exact .poaDestroy hr
  case managerActivate m =>
    obtain ⟨⟨s₁, r₁⟩, hs₁, hr⟩ := Outcomes.of_bind hr
    cases hr
    exact .managerActivate hs₁
  case holdRequests m =>
    cases hr
    exact .managerSuspend rfl
  case discardRequests m =>
    cases hr
    exact .managerSuspend rfl
  case managerDeactivate m etherealize wait => exact .managerDeactivate hr
  case duplicateReference o =>
    obtain ⟨s₁, hs₁, hr⟩ := Outcomes.of_bind hr
    cases hr
    exact .duplicateReference hs₁
  case releaseReference o =>
    obtain ⟨s₁, hs₁, hr⟩ := Outcomes.of_bind hr
    cases hr
    exact .releaseReference hs₁
  all_goals exact absurd trivial hop

end

end ORBit2.PortableServer
