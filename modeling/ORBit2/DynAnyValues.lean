import ORBit2.Base.Storage
import ORBit2.ValueWalks

/-! What a DynAny stands on: values in memory with the buffers of their sequences, their types,
their defaults and their copies (dynany.c, corba-any.c). The octets of a value without components
are its content; those of a union are not looked into. -/

set_option autoImplicit false

namespace ORBit2.Dynamic

open Storage Storage.Store

/-- A value; the header of a sequence is its `_maximum`. -/
abbrev Stored := Store (List UInt8) Nat

/-- Why an operation does not return: something freed is used, memory is read or written that
does not hold what is taken for it, an assertion fails, a loop does not end. -/
inductive Stop where
  | freedDynAny
  | freedAny
  | freedValue
  | wild
  | aborted
  | endless
  deriving DecidableEq, Repr

/-- The kinds whose components a DynAny hands out. -/
def composite : TCKind → Bool
  | .struct | .except | .array | .sequence => true
  | _ => false

mutual

/-- The value is laid out as the TypeCode says. -/
@[grind =] def hasType (tc : CTypeCode) : Stored → Bool
  | .leaf _ => !composite tc.skipAlias.kind
  | .record ms =>
      match tc.skipAlias.kind with
      | .struct | .except => haveTypes tc.skipAlias.subtypes ms
      | .array => ms.length == tc.skipAlias.info.length && eachHasType tc.skipAlias.element ms
      | _ => false
  | .buffer _ _ es => tc.skipAlias.kind == .sequence && eachHasType tc.skipAlias.element es

@[grind =] def haveTypes : List CTypeCode → List Stored → Bool
  | [], [] => true
  | tc :: tcs, m :: ms => hasType tc m && haveTypes tcs ms
  | _, _ => false

@[grind =] def eachHasType (tc : CTypeCode) : List Stored → Bool
  | [] => true
  | m :: ms => hasType tc m && eachHasType tc ms

end

mutual

/-- `dynany_init_default`. A sequence begins without a buffer. -/
@[grind =] def initDefault : CTypeCode → Stored
  | .node info subtypes _ =>
      match info.kind with
      | .sequence => .buffer info.length 0 []
      | .array => .record (List.replicate info.length (initHead subtypes))
      | .except | .struct => .record (initDefaults subtypes)
      | .alias => initHead subtypes
      | .string | .wstring | .objref | .any | .typeCode | .principal | .union => .leaf []
      | kind => .leaf (List.replicate kind.sizeof 0)

@[grind =] def initHead : List CTypeCode → Stored
  | [] => .leaf []
  | tc :: _ => initDefault tc

@[grind =] def initDefaults : List CTypeCode → List Stored
  | [] => []
  | tc :: tcs => initDefault tc :: initDefaults tcs

end

mutual

/-- `ORBit_copy_value_core`, with the stamp for the next buffer. The copy of a sequence has its
length for `_maximum`. -/
@[grind =] def copyValueCore (tc : CTypeCode) (next : Nat) : Stored → Except Stop (Stored × Nat)
  | .leaf content =>
      if tc.skipAlias.kind = .fixed then .error .aborted else .ok (.leaf content, next)
  | .record ms =>
      match tc.skipAlias.kind with
      | .struct | .except => do
          let (ms', next') ← copyMembers tc.skipAlias.subtypes next ms
          .ok (.record ms', next')
      | .array => do
          let (ms', next') ← copyEach tc.skipAlias.element next ms
          .ok (.record ms', next')
      | _ => .error .wild
  | .buffer _ _ es =>
      match tc.skipAlias.kind with
      | .sequence => do
          let (es', next') ← copyEach tc.skipAlias.element (next + 1) es
          .ok (.buffer es.length next es', next')
      | _ => .error .wild

@[grind =] def copyMembers (tcs : List CTypeCode) (next : Nat) :
    List Stored → Except Stop (List Stored × Nat)
  | [] => .ok ([], next)
  | m :: ms =>
      match tcs with
      | [] => .error .wild
      | tc :: tcs => do
          let (m', next) ← copyValueCore tc next m
          let (ms', next) ← copyMembers tcs next ms
          .ok (m' :: ms', next)

@[grind =] def copyEach (tc : CTypeCode) (next : Nat) : List Stored → Except Stop (List Stored × Nat)
  | [] => .ok ([], next)
  | m :: ms => do
      let (m', next) ← copyValueCore tc next m
      let (ms', next) ← copyEach tc next ms
      .ok (m' :: ms', next)

end

/-- The number of components. -/
def count : Stored → Nat
  | .leaf _ => 0
  | .record ms => ms.length
  | .buffer _ _ es => es.length

/-- The type of a component. -/
def partType (tc : CTypeCode) : Part → Option CTypeCode
  | .member i =>
      match tc.skipAlias.kind with
      | .struct | .except => tc.skipAlias.subtypes[i]?
      | .array => some tc.skipAlias.element
      | _ => none
  | .element _ _ =>
      match tc.skipAlias.kind with
      | .sequence => some tc.skipAlias.element
      | _ => none

@[grind =] def typeAt (tc : CTypeCode) : List Part → Option CTypeCode
  | [] => some tc
  | p :: path => (partType tc p).bind (typeAt · path)

@[simp] theorem typeAt_nil (tc : CTypeCode) : typeAt tc [] = some tc := rfl

@[simp] theorem typeAt_cons (tc : CTypeCode) (p : Part) (path : List Part) :
    typeAt tc (p :: path) = (partType tc p).bind (typeAt · path) := rfl

theorem typeAt_append (tc : CTypeCode) (path rest : List Part) :
    typeAt tc (path ++ rest) = (typeAt tc path).bind (typeAt · rest) := by
  induction path generalizing tc with
  | nil => rfl
  | cons p path ih =>
    rw [List.cons_append, typeAt_cons, typeAt_cons]
    cases partType tc p with
    | none => rfl
    | some t => exact ih t

theorem haveTypes_iff (tcs : List CTypeCode) (ms : List Stored) :
    haveTypes tcs ms = true ↔
      ms.length = tcs.length ∧
        ∀ (i : Nat) (t : CTypeCode) (m : Stored), tcs[i]? = some t → ms[i]? = some m → hasType t m = true := by
  induction tcs generalizing ms with
  | nil =>
    cases ms with
    | nil => simp [haveTypes]
    | cons => simp [haveTypes]
  | cons tc tcs ih =>
    cases ms with
    | nil => simp [haveTypes]
    | cons m ms =>
      rw [haveTypes, Bool.and_eq_true, ih]
      constructor
      · rintro ⟨h0, hl, hs⟩
        refine ⟨by simp [hl], fun i t x ht hx => ?_⟩
        cases i with
        | zero =>
          cases ht
          cases hx
          exact h0
        | succ i => exact hs i t x ht hx
      · rintro ⟨hl, hs⟩
        refine ⟨hs 0 tc m rfl rfl, by simpa using hl, fun i t x ht hx => ?_⟩
        exact hs (i + 1) t x ht hx

theorem eachHasType_iff (tc : CTypeCode) (ms : List Stored) :
    eachHasType tc ms = true ↔ ∀ m ∈ ms, hasType tc m = true := by
  induction ms with
  | nil => simp [eachHasType]
  | cons m ms ih => simp [eachHasType, ih]

theorem eachHasType_append (tc : CTypeCode) (ms ms' : List Stored) :
    eachHasType tc (ms ++ ms') = (eachHasType tc ms && eachHasType tc ms') := by
  induction ms with
  | nil => rfl
  | cons m ms ih => rw [List.cons_append, eachHasType, eachHasType, ih, Bool.and_assoc]

theorem skipAlias_skipAlias : (tc : CTypeCode) → tc.skipAlias.skipAlias = tc.skipAlias
  | .node info [] discriminator => by
    have h : CTypeCode.skipAlias (.node info [] discriminator) = .node info [] discriminator := by
      unfold CTypeCode.skipAlias
      split
      · contradiction
      · rfl
    rw [h, h]
  | .node info (sub :: subtypes) discriminator => by
    by_cases ha : info.kind = .alias
    · have hs : CTypeCode.skipAlias (.node info (sub :: subtypes) discriminator) =
          sub.skipAlias := by
        rw [CTypeCode.skipAlias]
        exact ha
      rw [hs]
      exact skipAlias_skipAlias sub
    · have hs := CTypeCode.skipAlias_of_ne
        (show CTypeCode.kind (.node info (sub :: subtypes) discriminator) ≠ .alias from ha)
      rw [hs, hs]

/-- All that counts is the type behind the aliases. -/
theorem hasType_congr {tc tc' : CTypeCode} (h : tc.skipAlias = tc'.skipAlias) (v : Stored) :
    hasType tc v = hasType tc' v := by
  cases v <;> unfold hasType <;> rw [h]

theorem partType_congr {tc tc' : CTypeCode} (h : tc.skipAlias = tc'.skipAlias) (p : Part) :
    partType tc p = partType tc' p := by
  unfold partType
  rw [h]

/-- A component has the type of the component. -/
theorem hasType_part {tc : CTypeCode} {v u : Stored} {p : Part} (hv : hasType tc v = true)
    (h : v.part p = some u) : ∃ t, partType tc p = some t ∧ hasType t u = true := by
  cases v with
  | leaf => cases p <;> cases h
  | record ms =>
    cases p with
    | element => cases h
    | member i =>
      rw [part] at h
      rw [hasType] at hv
      rw [partType]
      cases hk : tc.skipAlias.kind <;> rw [hk] at hv <;> try cases hv
      case struct | except =>
        obtain ⟨hl, hs⟩ := (haveTypes_iff _ _).mp hv
        have hi : i < ms.length := (List.getElem?_eq_some_iff.mp h).1
        have ht := List.getElem?_eq_getElem (hl ▸ hi : i < tc.skipAlias.subtypes.length)
        exact ⟨_, ht, hs i _ u ht h⟩
      case array =>
        rw [Bool.and_eq_true, eachHasType_iff] at hv
        exact ⟨_, rfl, hv.2 u (List.mem_of_getElem? h)⟩
  | buffer header stamp es =>
    cases p with
    | member => cases h
    | element s i =>
      by_cases hs : s = stamp
      · rw [part, if_pos hs] at h
        rw [hasType, Bool.and_eq_true, eachHasType_iff, beq_iff_eq] at hv
        rw [partType, hv.1]
        exact ⟨_, rfl, hv.2 u (List.mem_of_getElem? h)⟩
      · rw [part, if_neg hs] at h
        cases h

theorem hasType_follow {tc : CTypeCode} {v u : Stored} {path : List Part}
    (hv : hasType tc v = true) (h : v.follow path = some u) :
    ∃ t, typeAt tc path = some t ∧ hasType t u = true := by
  induction path generalizing tc v with
  | nil =>
    cases h
    exact ⟨tc, rfl, hv⟩
  | cons p path ih =>
    rw [follow_cons] at h
    cases hp : v.part p with
    | none =>
      rw [hp] at h
      cases h
    | some x =>
      rw [hp] at h
      obtain ⟨t, ht, hx⟩ := hasType_part hv hp
      obtain ⟨t', ht', hu⟩ := ih hx h
      exact ⟨t', by simp [ht, ht'], hu⟩

theorem partType_of_shape {tc : CTypeCode} {v : Stored} {p : Part} {t : CTypeCode} {w : Stored}
    (hv : hasType tc v = true) (hp : partType tc p = some t) (hw : hasType t w = true) :
    hasType tc (v.setPart p w) = true := by
  cases v with
  | leaf => cases p <;> exact hv
  | record ms =>
    cases p with
    | element => exact hv
    | member i =>
      rw [hasType] at hv
      rw [partType] at hp
      rw [setPart, hasType]
      cases hk : tc.skipAlias.kind <;> rw [hk] at hv hp <;> try cases hv
      case struct | except =>
        simp only
        rw [haveTypes_iff] at hv ⊢
        refine ⟨by rw [List.length_set]; exact hv.1, fun j t' m ht' hm => ?_⟩
        by_cases hij : i = j
        · subst j
          rw [List.getElem?_set_self'] at hm
          cases hp.symm.trans ht'
          cases hx : ms[i]? with
          | none => simp [hx] at hm
          | some x =>
            rw [hx] at hm
            cases hm
            exact hw
        · rw [List.getElem?_set_ne hij] at hm
          exact hv.2 j t' m ht' hm
      case array =>
        simp only
        cases hp
        rw [Bool.and_eq_true, eachHasType_iff] at hv ⊢
        refine ⟨by rw [List.length_set]; exact hv.1, fun m hm => ?_⟩
        rcases List.mem_or_eq_of_mem_set hm with hm | rfl
        · exact hv.2 m hm
        · exact hw
  | buffer header stamp es =>
    cases p with
    | member => exact hv
    | element s i =>
      rw [setPart]
      split
      · rw [hasType, Bool.and_eq_true, eachHasType_iff, beq_iff_eq] at hv ⊢
        rw [partType, hv.1] at hp
        cases hp
        refine ⟨hv.1, fun m hm => ?_⟩
        rcases List.mem_or_eq_of_mem_set hm with hm | rfl
        · exact hv.2 m hm
        · exact hw
      · exact hv

/-- Writing a value of the right type keeps the type. -/
theorem hasType_put {tc t : CTypeCode} {v w : Stored} {path : List Part}
    (hv : hasType tc v = true) (ht : typeAt tc path = some t) (hw : hasType t w = true) :
    hasType tc (v.put path w) = true := by
  induction path generalizing tc v with
  | nil =>
    cases ht
    exact hw
  | cons p path ih =>
    rw [put]
    cases hp : v.part p with
    | none => exact hv
    | some u =>
      obtain ⟨t', ht', hu⟩ := hasType_part hv hp
      rw [typeAt_cons, ht'] at ht
      exact partType_of_shape hv ht' (ih hu ht)

/-- Two values of one type have the same parts outside of buffers. -/
theorem part_inner {tc : CTypeCode} {v w u : Stored} {p : Part} (hv : hasType tc v = true)
    (hw : hasType tc w = true) (hp : p.inner = true) (h : v.part p = some u) :
    ∃ x t, w.part p = some x ∧ hasType t u = true ∧ hasType t x = true := by
  cases p with
  | element => cases hp
  | member i =>
    obtain ⟨t, ht, hu⟩ := hasType_part hv h
    cases v with
    | leaf => cases h
    | buffer => cases h
    | record ms =>
      rw [part] at h
      have hi : i < ms.length := (List.getElem?_eq_some_iff.mp h).1
      cases w with
      | leaf =>
        unfold hasType at hv hw
        cases hk : tc.skipAlias.kind <;> rw [hk] at hv hw <;> first | cases hv | cases hw
      | buffer =>
        unfold hasType at hv hw
        cases hk : tc.skipAlias.kind <;> rw [hk] at hv hw <;> first | cases hv | cases hw
      | record ns =>
        have hl : ms.length = ns.length := by
          rw [hasType] at hv hw
          cases hk : tc.skipAlias.kind <;> rw [hk] at hv hw <;> try cases hv
          case struct | except =>
            rw [((haveTypes_iff _ _).mp hv).1, ((haveTypes_iff _ _).mp hw).1]
          case array =>
            rw [Bool.and_eq_true, beq_iff_eq] at hv hw
            rw [hv.1, hw.1]
        have hx : (Store.record ns : Stored).part (.member i) = some ns[i] :=
          List.getElem?_eq_getElem (hl ▸ hi)
        obtain ⟨t', ht', hx'⟩ := hasType_part hw hx
        rw [ht] at ht'
        cases ht'
        exact ⟨_, t, hx, hu, hx'⟩

theorem follow_inner {tc : CTypeCode} {v w u : Stored} {path : List Part}
    (hv : hasType tc v = true) (hw : hasType tc w = true) (hp : ∀ p ∈ path, p.inner = true)
    (h : v.follow path = some u) : ∃ x, w.follow path = some x := by
  induction path generalizing tc v w with
  | nil => exact ⟨w, rfl⟩
  | cons p path ih =>
    rw [follow_cons] at h
    cases hq : v.part p with
    | none =>
      rw [hq] at h
      cases h
    | some y =>
      rw [hq] at h
      obtain ⟨x, t, hx, hy, hx'⟩ := part_inner hv hw (hp p List.mem_cons_self) hq
      obtain ⟨z, hz⟩ := ih hy hx' (fun q hq => hp q (List.mem_cons_of_mem p hq)) h
      exact ⟨z, by rw [follow_cons, hx]; exact hz⟩

mutual

theorem hasType_initDefault : (tc : CTypeCode) → tc.wellFormed = true →
    hasType tc (initDefault tc) = true
  | .node info subtypes discriminator, h => by
    have hall : CTypeCode.allWellFormed subtypes = true := by
      rw [CTypeCode.wellFormed, Bool.and_eq_true, Bool.and_eq_true] at h
      exact h.1.2
    by_cases ha : info.kind = .alias
    · cases subtypes with
      | nil =>
        rw [CTypeCode.wellFormed, ha] at h
        simp at h
      | cons sub subtypes =>
        have hs : CTypeCode.skipAlias (.node info (sub :: subtypes) discriminator) =
            sub.skipAlias := by
          rw [CTypeCode.skipAlias]
          exact ha
        have hd : initDefault (.node info (sub :: subtypes) discriminator) = initDefault sub := by
          rw [initDefault, ha]
          rfl
        have hsub := hasType_initDefault sub (CTypeCode.wellFormed_subtype h List.mem_cons_self)
        rw [hd]
        cases hv : initDefault sub <;> rw [hv] at hsub <;> unfold hasType at hsub ⊢ <;>
          rw [hs] <;> exact hsub
    · have hs := CTypeCode.skipAlias_of_ne
        (show CTypeCode.kind (.node info subtypes discriminator) ≠ .alias from ha)
      unfold initDefault
      cases hk : info.kind
      case sequence =>
        simp only [hasType, hs, CTypeCode.kind, CTypeCode.info, hk]
        rfl
      case array =>
        simp only [hasType, hs, CTypeCode.kind, CTypeCode.info, hk, List.length_replicate,
          beq_self_eq_true, Bool.true_and]
        refine (eachHasType_iff _ _).mpr fun m hm => ?_
        rw [(List.mem_replicate.mp hm).2]
        rw [CTypeCode.wellFormed, hk] at h
        cases subtypes with
        | nil => simp at h
        | cons sub subtypes =>
          exact hasType_initDefault sub ((CTypeCode.allWellFormed_iff _).mp hall sub
            List.mem_cons_self)
      case struct | except =>
        simp only [hasType, hs, CTypeCode.kind, CTypeCode.info, hk]
        exact haveTypes_initDefaults subtypes hall
      all_goals first
        | exact absurd hk ha
        | simp only [hasType, hs, CTypeCode.kind, CTypeCode.info, hk]
          rfl

theorem haveTypes_initDefaults : (tcs : List CTypeCode) → CTypeCode.allWellFormed tcs = true →
    haveTypes tcs (initDefaults tcs) = true
  | [], _ => rfl
  | tc :: tcs, h => by
    rw [CTypeCode.allWellFormed, Bool.and_eq_true] at h
    rw [initDefaults, haveTypes, hasType_initDefault tc h.1, haveTypes_initDefaults tcs h.2]
    rfl

end

mutual

theorem copyValueCore_typed {tc : CTypeCode} {n n' : Nat} {v' : Stored} : (v : Stored) →
    copyValueCore tc n v = .ok (v', n') → hasType tc v = true → hasType tc v' = true ∧ n ≤ n'
  | .leaf content, h, hv => by
    rw [copyValueCore] at h
    split at h
    · cases h
    · cases h
      exact ⟨hv, Nat.le_refl n⟩
  | .record ms, h, hv => by
    rw [copyValueCore] at h
    rw [hasType] at hv
    cases hk : tc.skipAlias.kind <;> rw [hk] at h hv <;> try cases hv
    case struct | except =>
      cases hc : copyMembers tc.skipAlias.subtypes n ms with
      | error => simp [hc, bind, Except.bind] at h
      | ok c =>
        obtain ⟨ms', k⟩ := c
        simp only [hc, bind, Except.bind, Except.ok.injEq, Prod.mk.injEq] at h
        obtain ⟨rfl, rfl⟩ := h
        rw [hasType, hk]
        exact copyMembers_typed ms hc hv
    case array =>
      cases hc : copyEach tc.skipAlias.element n ms with
      | error => simp [hc, bind, Except.bind] at h
      | ok c =>
        obtain ⟨ms', k⟩ := c
        simp only [hc, bind, Except.bind, Except.ok.injEq, Prod.mk.injEq] at h
        obtain ⟨rfl, rfl⟩ := h
        rw [Bool.and_eq_true] at hv
        obtain ⟨hl, ht, hn⟩ := copyEach_typed ms hc hv.2
        rw [hasType, hk, Bool.and_eq_true, hl]
        exact ⟨⟨hv.1, ht⟩, hn⟩
  | .buffer header stamp es, h, hv => by
    rw [copyValueCore] at h
    rw [hasType, Bool.and_eq_true, beq_iff_eq] at hv
    rw [hv.1] at h
    cases hc : copyEach tc.skipAlias.element (n + 1) es with
    | error => simp [hc, bind, Except.bind] at h
    | ok c =>
      obtain ⟨es', k⟩ := c
      simp only [hc, bind, Except.bind, Except.ok.injEq, Prod.mk.injEq] at h
      obtain ⟨rfl, rfl⟩ := h
      obtain ⟨hl, ht, hn⟩ := copyEach_typed es hc hv.2
      rw [hasType, hv.1, ht]
      exact ⟨rfl, by omega⟩

theorem copyMembers_typed {tcs : List CTypeCode} {n n' : Nat} {ms' : List Stored} :
    (ms : List Stored) → copyMembers tcs n ms = .ok (ms', n') → haveTypes tcs ms = true →
      haveTypes tcs ms' = true ∧ n ≤ n'
  | [], h, hm => by
    rw [copyMembers] at h
    cases h
    exact ⟨hm, Nat.le_refl n⟩
  | m :: ms, h, hm => by
    cases tcs with
    | nil => cases hm
    | cons tc tcs =>
      rw [haveTypes, Bool.and_eq_true] at hm
      rw [copyMembers] at h
      cases hc : copyValueCore tc n m with
      | error => simp [hc, bind, Except.bind] at h
      | ok c =>
        obtain ⟨m', k⟩ := c
        cases hd : copyMembers tcs k ms with
        | error => simp [hc, hd, bind, Except.bind] at h
        | ok d =>
          obtain ⟨ms', k'⟩ := d
          simp only [hc, hd, bind, Except.bind, Except.ok.injEq, Prod.mk.injEq] at h
          obtain ⟨rfl, rfl⟩ := h
          obtain ⟨ht, hn⟩ := copyValueCore_typed m hc hm.1
          obtain ⟨hts, hns⟩ := copyMembers_typed ms hd hm.2
          rw [haveTypes, ht, hts]
          exact ⟨rfl, by omega⟩

theorem copyEach_typed {tc : CTypeCode} {n n' : Nat} {ms' : List Stored} :
    (ms : List Stored) → copyEach tc n ms = .ok (ms', n') → eachHasType tc ms = true →
      ms'.length = ms.length ∧ eachHasType tc ms' = true ∧ n ≤ n'
  | [], h, hm => by
    rw [copyEach] at h
    cases h
    exact ⟨rfl, hm, Nat.le_refl n⟩
  | m :: ms, h, hm => by
    rw [eachHasType, Bool.and_eq_true] at hm
    rw [copyEach] at h
    cases hc : copyValueCore tc n m with
    | error => simp [hc, bind, Except.bind] at h
    | ok c =>
      obtain ⟨m', k⟩ := c
      cases hd : copyEach tc k ms with
      | error => simp [hc, hd, bind, Except.bind] at h
      | ok d =>
        obtain ⟨ms', k'⟩ := d
        simp only [hc, hd, bind, Except.bind, Except.ok.injEq, Prod.mk.injEq] at h
        obtain ⟨rfl, rfl⟩ := h
        obtain ⟨ht, hn⟩ := copyValueCore_typed m hc hm.1
        obtain ⟨hl, hts, hns⟩ := copyEach_typed ms hd hm.2
        rw [eachHasType, ht, hts]
        exact ⟨by rw [List.length_cons, hl, List.length_cons], rfl, by omega⟩

end

mutual

/-- Where the copy of a value of the type does not return, it has come to a fixed. -/
theorem copyValueCore_error {tc : CTypeCode} {n : Nat} {r : Stop} : (v : Stored) →
    copyValueCore tc n v = .error r → hasType tc v = true → r = .aborted
  | .leaf content, h, _ => by
    rw [copyValueCore] at h
    split at h
    · cases h
      rfl
    · cases h
  | .record ms, h, hv => by
    rw [copyValueCore] at h
    rw [hasType] at hv
    cases hk : tc.skipAlias.kind <;> rw [hk] at h hv <;> try cases hv
    case struct | except =>
      cases hc : copyMembers tc.skipAlias.subtypes n ms with
      | error =>
        simp only [hc, bind, Except.bind, Except.error.injEq] at h
        exact copyMembers_error ms (h ▸ hc) hv
      | ok c => simp [hc, bind, Except.bind] at h
    case array =>
      rw [Bool.and_eq_true] at hv
      cases hc : copyEach tc.skipAlias.element n ms with
      | error =>
        simp only [hc, bind, Except.bind, Except.error.injEq] at h
        exact copyEach_error ms (h ▸ hc) hv.2
      | ok c => simp [hc, bind, Except.bind] at h
  | .buffer header stamp es, h, hv => by
    rw [copyValueCore] at h
    rw [hasType, Bool.and_eq_true, beq_iff_eq] at hv
    rw [hv.1] at h
    cases hc : copyEach tc.skipAlias.element (n + 1) es with
    | error =>
      simp only [hc, bind, Except.bind, Except.error.injEq] at h
      exact copyEach_error es (h ▸ hc) hv.2
    | ok c => simp [hc, bind, Except.bind] at h

theorem copyMembers_error {tcs : List CTypeCode} {n : Nat} {r : Stop} : (ms : List Stored) →
    copyMembers tcs n ms = .error r → haveTypes tcs ms = true → r = .aborted
  | [], h, _ => by
    rw [copyMembers] at h
    cases h
  | m :: ms, h, hm => by
    cases tcs with
    | nil => cases hm
    | cons tc tcs =>
      rw [haveTypes, Bool.and_eq_true] at hm
      rw [copyMembers] at h
      cases hc : copyValueCore tc n m with
      | error =>
        simp only [hc, bind, Except.bind, Except.error.injEq] at h
        exact copyValueCore_error m (h ▸ hc) hm.1
      | ok c =>
        cases hd : copyMembers tcs c.2 ms with
        | error =>
          simp only [hc, hd, bind, Except.bind, Except.error.injEq] at h
          exact copyMembers_error ms (h ▸ hd) hm.2
        | ok d => simp [hc, hd, bind, Except.bind] at h

theorem copyEach_error {tc : CTypeCode} {n : Nat} {r : Stop} : (ms : List Stored) →
    copyEach tc n ms = .error r → eachHasType tc ms = true → r = .aborted
  | [], h, _ => by
    rw [copyEach] at h
    cases h
  | m :: ms, h, hm => by
    rw [eachHasType, Bool.and_eq_true] at hm
    rw [copyEach] at h
    cases hc : copyValueCore tc n m with
    | error =>
      simp only [hc, bind, Except.bind, Except.error.injEq] at h
      exact copyValueCore_error m (h ▸ hc) hm.1
    | ok c =>
      cases hd : copyEach tc c.2 ms with
      | error =>
        simp only [hc, hd, bind, Except.bind, Except.error.injEq] at h
        exact copyEach_error ms (h ▸ hd) hm.2
      | ok d => simp [hc, hd, bind, Except.bind] at h

end

/-- Each member is copied for itself. -/
theorem copyMembers_get {tcs : List CTypeCode} {n n' : Nat} {ms ms' : List Stored}
    (h : copyMembers tcs n ms = .ok (ms', n')) :
    ms'.length = ms.length ∧ ∀ (i : Nat) (m : Stored), ms[i]? = some m →
      ∃ t k k' m', tcs[i]? = some t ∧ ms'[i]? = some m' ∧
        copyValueCore t k m = .ok (m', k') := by
  induction ms generalizing tcs n ms' with
  | nil =>
    rw [copyMembers] at h
    cases h
    exact ⟨rfl, fun i m hm => by simp at hm⟩
  | cons m ms ih =>
    cases tcs with
    | nil => cases h
    | cons tc tcs =>
      rw [copyMembers] at h
      cases hc : copyValueCore tc n m with
      | error => simp [hc, bind, Except.bind] at h
      | ok c =>
        obtain ⟨m', k⟩ := c
        cases hd : copyMembers tcs k ms with
        | error => simp [hc, hd, bind, Except.bind] at h
        | ok d =>
          obtain ⟨ms', k'⟩ := d
          simp only [hc, hd, bind, Except.bind, Except.ok.injEq, Prod.mk.injEq] at h
          obtain ⟨rfl, rfl⟩ := h
          obtain ⟨hl, hs⟩ := ih hd
          refine ⟨by rw [List.length_cons, hl, List.length_cons], fun i x hx => ?_⟩
          cases i with
          | zero =>
            cases hx
            exact ⟨tc, n, k, m', rfl, rfl, hc⟩
          | succ i => exact hs i x hx

theorem copyEach_get {tc : CTypeCode} {n n' : Nat} {ms ms' : List Stored}
    (h : copyEach tc n ms = .ok (ms', n')) :
    ms'.length = ms.length ∧ ∀ (i : Nat) (m : Stored), ms[i]? = some m →
      ∃ k k' m', ms'[i]? = some m' ∧ copyValueCore tc k m = .ok (m', k') := by
  induction ms generalizing n ms' with
  | nil =>
    rw [copyEach] at h
    cases h
    exact ⟨rfl, fun i m hm => by simp at hm⟩
  | cons m ms ih =>
    rw [copyEach] at h
    cases hc : copyValueCore tc n m with
    | error => simp [hc, bind, Except.bind] at h
    | ok c =>
      obtain ⟨m', k⟩ := c
      cases hd : copyEach tc k ms with
      | error => simp [hc, hd, bind, Except.bind] at h
      | ok d =>
        obtain ⟨ms', k'⟩ := d
        simp only [hc, hd, bind, Except.bind, Except.ok.injEq, Prod.mk.injEq] at h
        obtain ⟨rfl, rfl⟩ := h
        obtain ⟨hl, hs⟩ := ih hd
        refine ⟨by rw [List.length_cons, hl, List.length_cons], fun i x hx => ?_⟩
        cases i with
        | zero =>
          cases hx
          exact ⟨n, k, m', rfl, hc⟩
        | succ i => exact hs i x hx

/-- A copy has as many components, and each is the copy of one. -/
theorem copyValueCore_part {tc : CTypeCode} {n n' : Nat} {v v' : Stored}
    (h : copyValueCore tc n v = .ok (v', n')) :
    count v' = count v ∧ ∀ (p : Part) (u : Stored), p.inner = true → v.part p = some u →
      ∃ t k k' u', v'.part p = some u' ∧ copyValueCore t k u = .ok (u', k') := by
  cases v with
  | leaf content =>
    rw [copyValueCore] at h
    split at h
    · cases h
    · cases h
      exact ⟨rfl, fun p u _ hu => by cases p <;> cases hu⟩
  | record ms =>
    have hcopied : ∃ ms', v' = .record ms' ∧ ms'.length = ms.length ∧
        ∀ (i : Nat) (m : Stored), ms[i]? = some m →
          ∃ t k k' m', ms'[i]? = some m' ∧ copyValueCore t k m = .ok (m', k') := by
      rw [copyValueCore] at h
      cases hk : tc.skipAlias.kind <;> rw [hk] at h <;> try cases h
      case struct | except =>
        cases hc : copyMembers tc.skipAlias.subtypes n ms with
        | error => simp [hc, bind, Except.bind] at h
        | ok c =>
          obtain ⟨ms', k⟩ := c
          simp only [hc, bind, Except.bind, Except.ok.injEq, Prod.mk.injEq] at h
          refine ⟨ms', h.1.symm, (copyMembers_get hc).1, fun i m hm => ?_⟩
          obtain ⟨t, k, k', m', -, hm', hmc⟩ := (copyMembers_get hc).2 i m hm
          exact ⟨t, k, k', m', hm', hmc⟩
      case array =>
        cases hc : copyEach tc.skipAlias.element n ms with
        | error => simp [hc, bind, Except.bind] at h
        | ok c =>
          obtain ⟨ms', k⟩ := c
          simp only [hc, bind, Except.bind, Except.ok.injEq, Prod.mk.injEq] at h
          refine ⟨ms', h.1.symm, (copyEach_get hc).1, fun i m hm => ?_⟩
          exact ⟨_, (copyEach_get hc).2 i m hm⟩
    obtain ⟨ms', rfl, hl, hs⟩ := hcopied
    refine ⟨hl, fun p u hp hu => ?_⟩
    cases p with
    | element => cases hp
    | member i => exact hs i u hu
  | buffer header stamp es =>
    rw [copyValueCore] at h
    cases hk : tc.skipAlias.kind <;> rw [hk] at h <;> try cases h
    cases hc : copyEach tc.skipAlias.element (n + 1) es with
    | error => simp [hc, bind, Except.bind] at h
    | ok c =>
      obtain ⟨es', k⟩ := c
      simp only [hc, bind, Except.bind, Except.ok.injEq, Prod.mk.injEq] at h
      obtain ⟨rfl, rfl⟩ := h
      refine ⟨(copyEach_get hc).1, fun p u hp hu => ?_⟩
      cases p with
      | element => cases hp
      | member => cases hu

theorem copyValueCore_follow {tc : CTypeCode} {n n' : Nat} {v v' u : Stored} {path : List Part}
    (h : copyValueCore tc n v = .ok (v', n')) (hp : ∀ p ∈ path, p.inner = true)
    (hu : v.follow path = some u) : ∃ u', v'.follow path = some u' ∧ count u' = count u := by
  induction path generalizing tc n n' v v' with
  | nil =>
    cases hu
    exact ⟨v', rfl, (copyValueCore_part h).1⟩
  | cons p path ih =>
    rw [follow_cons] at hu
    cases hq : v.part p with
    | none =>
      rw [hq] at hu
      cases hu
    | some x =>
      rw [hq] at hu
      obtain ⟨t, k, k', x', hx', hc⟩ := (copyValueCore_part h).2 p x (hp p List.mem_cons_self) hq
      obtain ⟨u', hu', hn⟩ := ih hc (fun q hq => hp q (List.mem_cons_of_mem p hq)) hu
      exact ⟨u', by rw [follow_cons, hx']; exact hu', hn⟩

/-- Equal TypeCodes are equal behind their aliases. -/
theorem skipAlias_equal : (tc tc' : CTypeCode) → tc.equal tc' = some true →
    tc.skipAlias.equal tc'.skipAlias = some true
  | .node info subtypes discriminator, .node info' subtypes' discriminator', h => by
    by_cases ha : info.kind = .alias
    · unfold CTypeCode.equal CTypeCode.typecodeEquivInternal at h
      rw [if_neg (by simp)] at h
      simp only [if_true, ne_eq] at h
      split at h
      · cases h
      · rename_i hk
        have hk' : info'.kind = .alias := by rw [← ha]; exact (not_not.mp hk).symm
        rw [ha] at h
        simp only at h
        split at h
        · cases h
        · split at h
          · cases h
          · rename_i hn
            obtain ⟨hone, hone'⟩ := not_or.mp hn
            obtain ⟨sub, rfl⟩ := List.length_eq_one_iff.mp (not_not.mp hone)
            obtain ⟨sub', rfl⟩ := List.length_eq_one_iff.mp (not_not.mp hone')
            have hsub : sub.equal sub' = some true := by
              rw [CTypeCode.equivMembers] at h
              split at h
              · assumption
              · exact h
            have hl : CTypeCode.skipAlias (.node info [sub] discriminator) = sub.skipAlias := by
              rw [CTypeCode.skipAlias]
              exact ha
            have hr : CTypeCode.skipAlias (.node info' [sub'] discriminator') =
                sub'.skipAlias := by
              rw [CTypeCode.skipAlias]
              exact hk'
            rw [hl, hr]
            exact skipAlias_equal sub sub' hsub
    · have ha' : info'.kind ≠ .alias := by
        intro hk'
        unfold CTypeCode.equal CTypeCode.typecodeEquivInternal at h
        rw [if_neg (by simp)] at h
        simp only [if_true, ne_eq] at h
        rw [if_pos (by rw [hk']; exact ha)] at h
        cases h
      rw [CTypeCode.skipAlias_of_ne
        (show CTypeCode.kind (.node info subtypes discriminator) ≠ .alias from ha),
        CTypeCode.skipAlias_of_ne
          (show CTypeCode.kind (.node info' subtypes' discriminator') ≠ .alias from ha')]
      exact h

theorem equivMembers_cons {tc tc' : CTypeCode} {tcs tcs' : List CTypeCode}
    (h : CTypeCode.equivMembers true (tc :: tcs) (tc' :: tcs') = some true) :
    tc.equal tc' = some true ∧ CTypeCode.equivMembers true tcs tcs' = some true := by
  rw [CTypeCode.equivMembers] at h
  split at h
  · rename_i he
    exact ⟨he, h⟩
  · rename_i hn
    exact absurd h (by simpa using hn)

/-- What equal TypeCodes have in common, where neither is an alias. -/
theorem equal_parts {tc tc' : CTypeCode} (h : tc.equal tc' = some true) :
    tc.kind = tc'.kind ∧
    (tc.kind = .struct ∨ tc.kind = .except → tc.subtypes.length = tc'.subtypes.length ∧
      CTypeCode.equivMembers true tc.subtypes tc'.subtypes = some true) ∧
    (tc.kind = .array ∨ tc.kind = .sequence → tc.info.length = tc'.info.length ∧
      tc.element.equal tc'.element = some true) := by
  obtain ⟨info, subtypes, discriminator⟩ := tc
  obtain ⟨info', subtypes', discriminator'⟩ := tc'
  unfold CTypeCode.equal CTypeCode.typecodeEquivInternal at h
  rw [if_neg (by simp)] at h
  simp only [if_true, ne_eq] at h
  split at h
  · cases h
  · rename_i hk
    refine ⟨not_not.mp hk, fun hs => ?_, fun hs => ?_⟩
    · have hm : ∀ r, (if ¬info.repoId = info'.repoId ∨ ¬subtypes.length = subtypes'.length then
          some false else r) = some true →
          subtypes.length = subtypes'.length ∧ r = some true := by
        intro r hr
        split at hr
        · cases hr
        · rename_i hn
          exact ⟨not_not.mp (not_or.mp hn).2, hr⟩
      rcases hs with hs | hs <;> rw [show info.kind = _ from hs] at h <;> exact hm _ h
    · have hm : ∀ r, (if ¬info.length = info'.length then some false else
          if ¬subtypes.length = 1 ∨ ¬subtypes'.length = 1 then none else r) = some true →
          info.length = info'.length ∧ subtypes.length = 1 ∧ subtypes'.length = 1 ∧
            r = some true := by
        intro r hr
        split at hr
        · cases hr
        · rename_i hl
          split at hr
          · cases hr
          · rename_i hn
            obtain ⟨h1, h2⟩ := not_or.mp hn
            exact ⟨not_not.mp hl, not_not.mp h1, not_not.mp h2, hr⟩
      have he : info.length = info'.length ∧ subtypes.length = 1 ∧ subtypes'.length = 1 ∧
          CTypeCode.equivMembers true subtypes subtypes' = some true := by
        rcases hs with hs | hs <;> rw [show info.kind = _ from hs] at h <;> exact hm _ h
      obtain ⟨hl, h1, h2, he⟩ := he
      obtain ⟨sub, rfl⟩ := List.length_eq_one_iff.mp h1
      obtain ⟨sub', rfl⟩ := List.length_eq_one_iff.mp h2
      exact ⟨hl, (equivMembers_cons he).1⟩

mutual

/-- Values of equal types. -/
theorem hasType_of_equal {tc tc' : CTypeCode} : (v : Stored) → tc.equal tc' = some true →
    hasType tc v = hasType tc' v
  | .leaf _, h => by
    have hk := (equal_parts (skipAlias_equal tc tc' h)).1
    rw [hasType, hasType, hk]
  | .record ms, h => by
    obtain ⟨hk, hs, ha⟩ := equal_parts (skipAlias_equal tc tc' h)
    rw [hasType, hasType, ← hk]
    cases hc : tc.skipAlias.kind <;> try rfl
    case struct =>
      obtain ⟨hl, he⟩ := hs (.inl hc)
      exact haveTypes_of_equal ms hl he
    case except =>
      obtain ⟨hl, he⟩ := hs (.inr hc)
      exact haveTypes_of_equal ms hl he
    case array =>
      obtain ⟨hl, he⟩ := ha (.inl hc)
      simp only [hl, eachHasType_of_equal ms he]
  | .buffer _ _ es, h => by
    obtain ⟨hk, -, ha⟩ := equal_parts (skipAlias_equal tc tc' h)
    rw [hasType, hasType, ← hk]
    cases hc : tc.skipAlias.kind <;> try rfl
    case sequence => rw [eachHasType_of_equal es (ha (.inr hc)).2]

theorem haveTypes_of_equal {tcs tcs' : List CTypeCode} : (ms : List Stored) →
    tcs.length = tcs'.length → CTypeCode.equivMembers true tcs tcs' = some true →
    haveTypes tcs ms = haveTypes tcs' ms
  | [], hl, _ => by
    cases tcs <;> cases tcs' <;> first | rfl | cases hl
  | m :: ms, hl, h => by
    cases tcs with
    | nil =>
      cases tcs' with
      | nil => rfl
      | cons => cases hl
    | cons tc tcs =>
      cases tcs' with
      | nil => cases hl
      | cons tc' tcs' =>
        obtain ⟨he, hs⟩ := equivMembers_cons h
        rw [haveTypes, haveTypes, hasType_of_equal m he,
          haveTypes_of_equal ms (Nat.succ.inj hl) hs]

theorem eachHasType_of_equal {tc tc' : CTypeCode} : (ms : List Stored) →
    tc.equal tc' = some true → eachHasType tc ms = eachHasType tc' ms
  | [], _ => rfl
  | m :: ms, h => by
    rw [eachHasType, eachHasType, hasType_of_equal m h, eachHasType_of_equal ms h]

end

end ORBit2.Dynamic
