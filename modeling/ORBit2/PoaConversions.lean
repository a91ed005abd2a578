import ORBit2.ActiveObjectMap

/-! Ids, servants and references of active objects, turned into one another. -/

set_option autoImplicit false

namespace ORBit2.PortableServer

/-- The operation returns, with this result. -/
def Returns (f : Except Stop (State × Result)) (r : Result) : Prop := ∃ s', f = .ok (s', r)

/-- The object with this id is active. -/
def State.Active (s : State) (p : Nat) (oid : Octets) (servant : Nat) : Prop :=
  ∃ o x, s.objectIdLookup p oid = .ok (some o) ∧ s.objects o = some x ∧ x.servant = some servant

/-- There is no object with this id, or it has no servant. -/
def State.Inactive (s : State) (p : Nat) (oid : Octets) : Prop :=
  ∃ found, s.objectIdLookup p oid = .ok found ∧
    ∀ o ∈ found, ∃ x, s.objects o = some x ∧ x.servant = none

/-- What the conversions are to do for an id in a POA with RETAIN. -/
structure State.Converts (w : World) (s : State) (p : Nat) (oid random : Octets) : Prop where
  servant : ∀ servant, s.Active p oid servant →
    Returns (s.poaIdToServant w p oid) (.servant (some servant))
  reference : ∀ servant, s.Active p oid servant → ∃ s' o,
    s.poaIdToReference w p oid = .ok (s', .reference o) ∧
    s'.poaReferenceToServant w p (some o) = .ok (.servant (some servant)) ∧
    s'.poaReferenceToId (some o) = .ok (.objectId oid)
  id : ∀ servant, s.Active p oid servant → (w.policies p).uniqueId = true →
    Returns (s.poaServantToId w p (some servant) random) (.objectId oid) ∧ ∃ s' o,
    s.poaServantToReference w p (some servant) random = .ok (s', .reference o) ∧
    s'.poaReferenceToId (some o) = .ok (.objectId oid)
  inactive : (∀ servant, ¬ s.Active p oid servant) →
    Returns (s.poaIdToServant w p oid) .objectNotActive ∧
    Returns (s.poaIdToReference w p oid) .objectNotActive

/-- What they are to do for a reference to an object that is none of the POA. -/
def State.Refuses (w : World) (s : State) (p : Nat) (reference : Option Nat) : Prop :=
  s.poaReferenceToServant w p reference = .ok .wrongAdapter ∧
  s.poaReferenceToId reference = .ok .wrongAdapter

section
variable {w : World} {s s₁ : State} {o p : Nat} {x : POAObject} {oid random : Octets}

theorem State.objectIdLookup_lock (hl : s.lock w p = .ok s₁) :
    s₁.objectIdLookup p oid = s.objectIdLookup p oid := by
  unfold State.objectIdLookup State.key
  rw [State.lock_objects hl, State.lock_map hl]

theorem State.object_of_objects (hx : s.objects o = some x) : s.object o = .ok x := by
  unfold State.object
  rw [hx]

/-- A lookup that does not find a servant gives back what it took. -/
theorem State.release_duplicate (hsv : x.servant = none) :
    ∃ s', (s.setObject o { x with refs := x.refs + 1 }).release o = .ok s' := by
  unfold State.release
  rw [State.object_setObject, Outcomes.ok_bind, if_neg (by simp)]
  split
  · unfold State.releaseCb
    rw [if_neg (by simp [hsv])]
    split
    · exact ⟨_, rfl⟩
    · exact ⟨_, rfl⟩
  · exact ⟨_, rfl⟩

theorem State.duplicate_of_objects (hx : s.objects o = some x) :
    s.duplicate o = .ok (s.setObject o { x with refs := x.refs + 1 }) := by
  unfold State.duplicate
  rw [State.object_of_objects hx]
  rfl

/-- `id_to_servant` gives no servant away. -/
theorem State.poaIdToServant_ne {servant : Nat} :
    ¬ Returns (s.poaIdToServant w p oid) (.servant (some servant)) := by
  rintro ⟨s', h⟩
  unfold State.poaIdToServant at h
  dsimp only at h
  obtain ⟨s₁, -, h⟩ := Outcomes.of_bind h
  split at h
  · cases h
  · split at h
    · obtain ⟨⟨s₂, found⟩, -, h⟩ := Outcomes.of_bind h
      dsimp only at h
      split at h <;> cases h
    · split at h <;> cases h

/-- A lookup that fails, fails for `id_to_servant`. -/
theorem State.lookup_of_poaIdToServant {r : Result} (hre : (w.policies p).retain = true)
    (h : Returns (s.poaIdToServant w p oid) r) :
    ∃ found, s.objectIdLookup p oid = .ok found ∧ ∀ o ∈ found, s.objects o ≠ none := by
  obtain ⟨s', h⟩ := h
  unfold State.poaIdToServant at h
  dsimp only at h
  obtain ⟨s₁, hs₁, h⟩ := Outcomes.of_bind h
  rw [if_neg (by simp [hre]), if_pos hre] at h
  obtain ⟨⟨s₂, servant⟩, hs₂, h⟩ := Outcomes.of_bind h
  unfold State.servantWithId at hs₂
  obtain ⟨found, hfound, hs₂⟩ := Outcomes.of_bind hs₂
  refine ⟨found, State.objectIdLookup_lock hs₁ ▸ hfound, ?_⟩
  cases found with
  | none => simp
  | some o =>
    obtain ⟨s₃, hs₃, hs₂⟩ := Outcomes.of_bind hs₂
    unfold State.duplicate at hs₃
    obtain ⟨x, hx, -⟩ := Outcomes.of_bind hs₃
    have hx := State.object_ok hx
    rw [State.lock_objects hs₁] at hx
    intro o' ho' hnone
    cases ho'
    rw [hx] at hnone
    cases hnone

theorem State.Inactive.not_active {servant : Nat} (h : s.Inactive p oid) :
    ¬ s.Active p oid servant := by
  rintro ⟨o, x, hlook, hx, hsv⟩
  obtain ⟨found, hfound, hall⟩ := h
  cases hlook.symm.trans hfound
  obtain ⟨y, hy, hnone⟩ := hall o rfl
  cases hx.symm.trans hy
  rw [hsv] at hnone
  cases hnone

theorem State.Inactive.lock (h : s.Inactive p oid) (hl : s.lock w p = .ok s₁) :
    s₁.Inactive p oid := by
  obtain ⟨found, hfound, hall⟩ := h
  refine ⟨found, (State.objectIdLookup_lock hl).trans hfound, ?_⟩
  rw [State.lock_objects hl]
  exact hall

theorem State.Inactive.idToServant (h : s.Inactive p oid) (hre : (w.policies p).retain = true)
    (hl : s.lock w p = .ok s₁) : Returns (s.poaIdToServant w p oid) .objectNotActive := by
  obtain ⟨found, hfound, hall⟩ := h.lock hl
  have hwith : ∃ s', s₁.servantWithId p oid = .ok (s', none) := by
    unfold State.servantWithId
    rw [hfound, Outcomes.ok_bind]
    cases found with
    | none => exact ⟨s₁, rfl⟩
    | some o =>
      obtain ⟨x, hx, hsv⟩ := hall o rfl
      obtain ⟨s', hs'⟩ := State.release_duplicate hsv
      refine ⟨s', ?_⟩
      dsimp only
      rw [State.duplicate_of_objects hx, Outcomes.ok_bind, State.object_setObject, Outcomes.ok_bind,
        hs', Outcomes.ok_bind, hsv]
  obtain ⟨s', hs'⟩ := hwith
  refine ⟨s'.unlock w p, ?_⟩
  unfold State.poaIdToServant
  simp only [hl, Outcomes.ok_bind, hre, hs']
  simp

theorem State.Inactive.idToReference (h : s.Inactive p oid) (hre : (w.policies p).retain = true)
    (hl : s.lock w p = .ok s₁) : Returns (s.poaIdToReference w p oid) .objectNotActive := by
  obtain ⟨found, hfound, hall⟩ := h.lock hl
  unfold Returns State.poaIdToReference
  rw [hl, Outcomes.ok_bind, if_neg (by simp [hre]), hfound, Outcomes.ok_bind]
  cases found with
  | none => exact ⟨_, rfl⟩
  | some o =>
    obtain ⟨x, hx, hsv⟩ := hall o rfl
    obtain ⟨s', hs'⟩ := State.release_duplicate hsv
    refine ⟨s'.unlock w p, ?_⟩
    dsimp only
    rw [State.duplicate_of_objects hx, Outcomes.ok_bind, State.object_setObject, Outcomes.ok_bind,
      if_pos hsv, hs', Outcomes.ok_bind]

end

/-- One object is active, another one has a reference and no servant. -/
def oneOfTwoActive : List Event :=
  [.call 0 (.createPOA 0), .call 0 (.activateObjectWithId 0 [9, 0, 0, 0, 1, 2, 3, 4] 7),
    .call 0 (.createReference 0 true [1, 2, 3, 4])]

end ORBit2.PortableServer
