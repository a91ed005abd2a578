import ORBit2.PoaConversions

/-! References that are made for an id. -/

set_option autoImplicit false

namespace ORBit2.PortableServer

/-- The POA makes a reference for the id, which leads back to it, and the object found under the id is
that of the reference. -/
def State.References (w : World) (s : State) (p : Nat) (oid : Octets) (intf : Bool) : Prop :=
  ∃ s' o, s.poaCreateReferenceWithId w p oid intf = .ok (s', .reference o) ∧
    s'.poaReferenceToId (some o) = .ok (.objectId oid) ∧ s'.objectIdLookup p oid = .ok (some o)

/-- There is an object with the id that has no reference, and a type for one. -/
def State.Referable (s : State) (p : Nat) (oid : Octets) (intf : Bool) : Prop :=
  ∃ o x, s.objectIdLookup p oid = .ok (some o) ∧ s.objects o = some x ∧ x.objectId = some oid ∧
    x.objref = none ∧ (intf = false → x.servant ≠ none)

/-- Every entry of a map is that of an object with its id. -/
def State.Undangling (s : State) : Prop :=
  ∀ p, ∀ e ∈ (s.poas p).map, ∃ x oid, s.objects e.2 = some x ∧ x.poa = p ∧
    x.objectId = some oid ∧ s.key e = some oid

section
variable {w : World} {s s' s₁ : State} {o o' p : Nat} {x x' : POAObject} {oid : Octets} {intf : Bool}

/-- The keys do not see what changes at an object besides its id. -/
theorem State.key_setObject (hx : s.objects o = some x) (hid : x'.objectId = x.objectId)
    (e : Nat × Nat) : (s.setObject o x').key e = s.key e := by
  unfold State.key
  rw [State.setObject_objects]
  by_cases he : e.1 = o
  · rw [if_pos he, he, hx]
    simp [hid]
  · rw [if_neg he]

theorem State.objectIdLookup_setObject (hx : s.objects o = some x) (x' : POAObject)
    (hid : x'.objectId = x.objectId) : (s.setObject o x').objectIdLookup p oid = s.objectIdLookup p oid := by
  unfold State.objectIdLookup
  simp only [State.key_setObject hx hid, State.setObject_poas]

theorem State.objectIdLookup_unlock : (s.unlock w p).objectIdLookup p oid = s.objectIdLookup p oid := by
  unfold State.unlock
  split
  · rfl
  · have hmap : ((s.setPoa p fun a => { a with locked := false }).poas p).map = (s.poas p).map := by
      rw [State.setPoa_poas, if_pos rfl]
    unfold State.objectIdLookup State.key
    rw [hmap]
    rfl

theorem State.lock_of_free (hfree : s.lock w p ≠ .error .blocked) : ∃ s₁, s.lock w p = .ok s₁ := by
  unfold State.lock at hfree ⊢
  split
  · exact ⟨_, rfl⟩
  · rename_i hts
    rw [if_neg hts] at hfree
    split
    · rename_i hlocked
      exact absurd (if_pos hlocked) hfree
    · exact ⟨_, rfl⟩

/-- What the reference is made of. -/
theorem State.poaCreateReferenceWithId_eq (hl : s.lock w p = .ok s₁)
    (hlook : s.objectIdLookup p oid = .ok (some o)) (hx : s.objects o = some x)
    (href : x.objref = none) (htype : intf = false → x.servant ≠ none) :
    s.poaCreateReferenceWithId w p oid intf =
      .ok ((s₁.setObject o { x with objref := some 1, refs := x.refs + 1 }).unlock w p, .reference o) := by
  have hx₁ : s₁.objects o = some x := by rw [State.lock_objects hl, hx]
  have hnot : ¬ (x.objref ≠ none ∨ (intf = false ∧ x.servant = none)) := by
    rintro (h | ⟨hi, hs⟩)
    · exact h href
    · exact htype hi hs
  have hmake : (s₁.setObject o { x with refs := x.refs + 1 }).objToRef o intf =
      .ok (s₁.setObject o { x with objref := some 1, refs := x.refs + 2 }) := by
    unfold State.objToRef
    rw [State.object_setObject, Outcomes.ok_bind]
    dsimp only
    rw [if_neg hnot, State.setObject_setObject]
  have hback : (s₁.setObject o { x with objref := some 1, refs := x.refs + 2 }).release o =
      .ok (s₁.setObject o { x with objref := some 1, refs := x.refs + 1 }) := by
    unfold State.release
    rw [State.object_setObject, Outcomes.ok_bind]
    dsimp only
    rw [if_neg (by omega), if_neg (by omega), State.setObject_setObject]
    rfl
  unfold State.poaCreateReferenceWithId
  rw [hl, Outcomes.ok_bind, State.objectIdLookup_lock hl, hlook, Outcomes.ok_bind]
  dsimp only
  rw [State.duplicate_of_objects hx₁, Outcomes.ok_bind, hmake, Outcomes.ok_bind, hback,
    Outcomes.ok_bind]

/-- What a reference that is made needs. -/
theorem State.of_poaCreateReferenceWithId {r : Result}
    (h : s.poaCreateReferenceWithId w p oid intf = .ok (s', r)) :
    ∃ s₁ o x, s.lock w p = .ok s₁ ∧ s.objectIdLookup p oid = .ok (some o) ∧ s.objects o = some x ∧
      x.objref = none ∧ (intf = false → x.servant ≠ none) := by
  unfold State.poaCreateReferenceWithId at h
  obtain ⟨s₁, hl, h⟩ := Outcomes.of_bind h
  obtain ⟨found, hlook, h⟩ := Outcomes.of_bind h
  rw [State.objectIdLookup_lock hl] at hlook
  cases found with
  | none =>
    obtain ⟨made, -, h⟩ := Outcomes.of_bind h
    cases h
  | some o =>
    obtain ⟨s₂, hs₂, h⟩ := Outcomes.of_bind h
    obtain ⟨s₃, hs₃, -⟩ := Outcomes.of_bind h
    have hdup := hs₂
    unfold State.duplicate at hdup
    obtain ⟨x, hx, -⟩ := Outcomes.of_bind hdup
    have hx₁ := State.object_ok hx
    rw [State.duplicate_of_objects hx₁] at hs₂
    cases hs₂
    unfold State.objToRef at hs₃
    rw [State.object_setObject, Outcomes.ok_bind] at hs₃
    obtain ⟨hnot, -⟩ := Outcomes.of_guard hs₃
    rw [State.lock_objects hl] at hx₁
    refine ⟨s₁, o, x, hl, hlook, hx₁, ?_, fun hi hs => hnot (.inr ⟨hi, hs⟩)⟩
    by_contra href
    exact hnot (.inl href)

theorem State.references_iff (hfree : s.lock w p ≠ .error .blocked) :
    s.References w p oid intf ↔ s.Referable p oid intf := by
  obtain ⟨s₁, hl⟩ := State.lock_of_free hfree
  constructor
  · rintro ⟨s', o, hmake, hid, -⟩
    obtain ⟨s₂, o', x, hl₂, hlook, hx, href, htype⟩ := State.of_poaCreateReferenceWithId hmake
    rw [State.poaCreateReferenceWithId_eq hl hlook hx href htype] at hmake
    cases hmake
    refine ⟨o, x, hlook, hx, ?_, href, htype⟩
    unfold State.poaReferenceToId at hid
    obtain ⟨y, hy, hid⟩ := Outcomes.of_bind hid
    have hy := State.object_ok hy
    rw [State.unlock_objects, State.setObject_objects, if_pos rfl] at hy
    cases hy
    dsimp only at hid
    split at hid
    · rename_i heq
      cases hid
      exact heq
    · cases hid
  · rintro ⟨o, x, hlook, hx, hoid, href, htype⟩
    have hx₁ : s₁.objects o = some x := by rw [State.lock_objects hl, hx]
    refine ⟨_, o, State.poaCreateReferenceWithId_eq hl hlook hx href htype, ?_, ?_⟩
    · have hobj : ((s₁.setObject o { x with objref := some 1, refs := x.refs + 1 }).unlock w p).object o =
          .ok { x with objref := some 1, refs := x.refs + 1 } := by
        refine State.object_of_objects ?_
        rw [State.unlock_objects, State.setObject_objects, if_pos rfl]
      unfold State.poaReferenceToId
      dsimp only
      rw [hobj, Outcomes.ok_bind]
      simp only [hoid]
    · rw [State.objectIdLookup_unlock, State.objectIdLookup_setObject hx₁
        { x with objref := some 1, refs := x.refs + 1 } rfl,
        State.objectIdLookup_lock hl, hlook]

/-- Once a reference is made for the id, there is none to be made before it is released. -/
theorem State.not_referable_again {r : Result}
    (h : s.poaCreateReferenceWithId w p oid intf = .ok (s', r)) (intf' : Bool) :
    ¬ s'.Referable p oid intf' := by
  obtain ⟨s₁, o, x, hl, hlook, hx, href, htype⟩ := State.of_poaCreateReferenceWithId h
  have hx₁ : s₁.objects o = some x := by rw [State.lock_objects hl, hx]
  rw [State.poaCreateReferenceWithId_eq hl hlook hx href htype] at h
  cases h
  rintro ⟨o', y, hlook', hy, -, hnone, -⟩
  rw [State.objectIdLookup_unlock, State.objectIdLookup_setObject hx₁
        { x with objref := some 1, refs := x.refs + 1 } rfl, State.objectIdLookup_lock hl,
    hlook] at hlook'
  cases hlook'
  rw [State.unlock_objects, State.setObject_objects, if_pos rfl] at hy
  cases hy
  cases hnone

theorem State.Sound.undangling (h : s.Sound w) : s.Undangling :=
  h.activeObjectMap.entries

/-- In the states of careful runs, the object that is found has the id. -/
theorem State.Sound.referable_iff (h : s.Sound w) :
    s.Referable p oid intf ↔ ∃ o x, s.objectIdLookup p oid = .ok (some o) ∧ s.objects o = some x ∧
      x.objref = none ∧ (intf = false → x.servant ≠ none) := by
  constructor
  · rintro ⟨o, x, hlook, hx, -, href, htype⟩
    exact ⟨o, x, hlook, hx, href, htype⟩
  · rintro ⟨o, x, hlook, hx, href, htype⟩
    obtain ⟨y, hy, -, hid⟩ := h.lookup hlook
    cases hx.symm.trans hy
    exact ⟨o, x, hlook, hx, hid, href, htype⟩

end

/-- In every state of a careful run the entries of the maps are those of objects, and a reference is
made for an id exactly if its object is there without one, and a type is known; a second one is not made
before the first is released. -/
theorem createReferenceWithId_of_careful (w : World) (es : List Event)
    (h : Runs.Meets (State.step w) (State.Careful w) .init es) :
    Runs.Always (State.step w) (fun s => s.Undangling ∧
      ∀ p oid intf, s.lock w p ≠ .error .blocked →
        (s.References w p oid intf ↔ ∃ o x, s.objectIdLookup p oid = .ok (some o) ∧
          s.objects o = some x ∧ x.objref = none ∧ (intf = false → x.servant ≠ none)) ∧
        ∀ s' r, s.poaCreateReferenceWithId w p oid intf = .ok (s', r) →
          ∀ intf', ¬ s'.Referable p oid intf') .init es := by
  have hrun : Runs.Always (State.step w) (State.Sound w) .init es :=
    h.always (fun s e hs hc => State.Sound.step hs hc) (State.sound_init w)
  refine hrun.imp fun s hs => ⟨State.Sound.undangling hs, fun p oid intf hfree => ⟨?_, ?_⟩⟩
  · rw [State.references_iff hfree, State.Sound.referable_iff hs]
  · exact fun s' r hmake intf' => State.not_referable_again hmake intf'

/-- An object loses its reference and gets another one for its id. -/
def referredTwice : List Event :=
  [.call 0 (.createPOA 0), .call 0 (.activateObjectWithId 0 [9, 0, 0, 0, 1, 2, 3, 4] 7),
    .call 0 (.createReferenceWithId 0 [9, 0, 0, 0, 1, 2, 3, 4] false), .call 0 (.releaseReference 0),
    .call 0 (.createReferenceWithId 0 [9, 0, 0, 0, 1, 2, 3, 4] true), .call 0 (.releaseReference 0)]

theorem createReferenceWithId_referredTwice :
    Runs.Meets (State.step loneWorld) (State.Careful loneWorld) .init referredTwice ∧
    Runs.Always (State.step loneWorld) (fun s => s.Undangling ∧
      ∀ p oid intf, s.lock loneWorld p ≠ .error .blocked →
        (s.References loneWorld p oid intf ↔ ∃ o x, s.objectIdLookup p oid = .ok (some o) ∧
          s.objects o = some x ∧ x.objref = none ∧ (intf = false → x.servant ≠ none)) ∧
        ∀ s' r, s.poaCreateReferenceWithId loneWorld p oid intf = .ok (s', r) →
          ∀ intf', ¬ s'.Referable p oid intf') .init referredTwice :=
  ⟨by decide, createReferenceWithId_of_careful loneWorld referredTwice (by decide)⟩

/-- No object has the id, or its reference is in use. -/
theorem not_references_fresh :
    ¬ (State.run loneWorld [.call 0 (.createPOA 0)]).References loneWorld 0
      [9, 0, 0, 0, 1, 2, 3, 4] true ∧
    ¬ (State.run loneWorld (referredTwice.take 3)).References loneWorld 0
      [9, 0, 0, 0, 1, 2, 3, 4] true := by
  have hunknown : (State.run loneWorld [.call 0 (.createPOA 0)]).poaCreateReferenceWithId loneWorld 0
      [9, 0, 0, 0, 1, 2, 3, 4] true = .error .assertion := rfl
  have hinuse : (State.run loneWorld (referredTwice.take 3)).poaCreateReferenceWithId loneWorld 0
      [9, 0, 0, 0, 1, 2, 3, 4] true = .error .assertion := rfl
  constructor
  · rintro ⟨s', o, h, -⟩
    rw [hunknown] at h
    cases h
  · rintro ⟨s', o, h, -⟩
    rw [hinuse] at h
    cases h

end ORBit2.PortableServer
