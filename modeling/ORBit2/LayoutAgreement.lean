import ORBit2.ValueWalks

/-! When the walks over a value move their pointers by what `ORBit_gather_alloc_info` says
and stay inside the blocks that were reserved. -/

set_option autoImplicit false

namespace ORBit2
open Words

variable {α : Type}

mutual

/-- The values of a TypeCode. -/
@[grind =] def CValue.conforms (tc : CTypeCode) : CValue α → Bool
  | .atom _ => tc.isAtom
  | .any type value =>
      decide (tc.skipAlias.kind = .any) && type.wellFormed && CValue.conforms type value
  | .record members =>
      decide (tc.skipAlias.kind = .struct ∨ tc.skipAlias.kind = .except) &&
        CValue.conformAll tc.skipAlias.subtypes members
  | .union switch body =>
      decide (tc.skipAlias.kind = .union) && CValue.conforms (tc.skipAlias.arm switch) body
  | .seq elements =>
      (decide (tc.skipAlias.kind = .sequence ∧ elements.length < 2^32) ||
        decide (tc.skipAlias.kind = .array ∧ elements.length = tc.skipAlias.info.length)) &&
        CValue.conformEach tc.skipAlias.element elements

@[grind =] def CValue.conformAll : List CTypeCode → List (CValue α) → Bool
  | [], [] => true
  | tc :: tcs, v :: vs => CValue.conforms tc v && CValue.conformAll tcs vs
  | _, _ => false

@[grind =] def CValue.conformEach (tc : CTypeCode) : List (CValue α) → Bool
  | [] => true
  | v :: vs => CValue.conforms tc v && CValue.conformEach tc vs

end

/-- It makes no difference to the size of a union whether its arms begin at its own
alignment or at that of the last arm that is more aligned than the one before it. -/
def CTypeCode.unionFits (tc : CTypeCode) : Bool :=
  tc.bodyOffset + alignUp (CTypeCode.gatherWidest tc.subtypes) tc.findCAlignment ==
    alignUp (alignToRise tc.subtypes (gatherDiscriminator tc.discriminator) +
      CTypeCode.gatherWidest tc.subtypes) tc.findCAlignment

mutual

/-- Every union that is met fits, every sequence and every any takes less than 4 gigabytes,
no loop index overflows, and no kind is met that the walks do not know. -/
@[grind =] def CValue.fits (tc : CTypeCode) : CValue α → Bool
  | .atom _ => Walker.implemented tc.skipAlias.kind
  | .any type value => decide (type.gatherAllocInfo < 2^32) && CValue.fits type value
  | .record members => CValue.fitAll tc.skipAlias.subtypes members
  | .union switch body =>
      tc.skipAlias.discriminator.any CTypeCode.readsSwitch && tc.skipAlias.unionFits &&
        CValue.fits (tc.skipAlias.arm switch) body
  | .seq elements =>
      decide (elements.length < 2^31) &&
        (decide (tc.skipAlias.kind ≠ .sequence) ||
          decide (tc.skipAlias.element.gatherAllocInfo * elements.length < 2^32)) &&
        CValue.fitEach tc.skipAlias.element elements

@[grind =] def CValue.fitAll : List CTypeCode → List (CValue α) → Bool
  | tc :: tcs, v :: vs => CValue.fits tc v && CValue.fitAll tcs vs
  | _, _ => true

@[grind =] def CValue.fitEach (tc : CTypeCode) : List (CValue α) → Bool
  | [] => true
  | v :: vs => CValue.fits tc v && CValue.fitEach tc vs

end

mutual

@[grind =] def CValue.noAny : CValue α → Bool
  | .atom _ => true
  | .any _ _ => false
  | .record members => CValue.noneAny members
  | .union _ body => CValue.noAny body
  | .seq elements => CValue.noneAny elements

@[grind =] def CValue.noneAny : List (CValue α) → Bool
  | [] => true
  | v :: vs => CValue.noAny v && CValue.noneAny vs

end

mutual

/-- No part is met for which `ORBit_value_equivalent` returns FALSE whatever it holds. -/
@[grind =] def CValue.comparable (tc : CTypeCode) : CValue α → Bool
  | .atom _ => Walker.valueEquivalent.handles tc.skipAlias.kind
  | .any _ _ => true
  | .record members => CValue.comparableAll tc.skipAlias.subtypes members
  | .union switch body => CValue.comparable (tc.skipAlias.arm switch) body
  | .seq elements => CValue.comparableEach tc.skipAlias.element elements

@[grind =] def CValue.comparableAll : List CTypeCode → List (CValue α) → Bool
  | tc :: tcs, v :: vs => CValue.comparable tc v && CValue.comparableAll tcs vs
  | _, _ => true

@[grind =] def CValue.comparableEach (tc : CTypeCode) : List (CValue α) → Bool
  | [] => true
  | v :: vs => CValue.comparable tc v && CValue.comparableEach tc vs

end

/-- A call moves its pointer by the size of its value, inside the block; element `i` lies
`i` element sizes behind the first one, inside the block. -/
def Step.Placed : Step → Prop
  | .call _ tc start stop room => stop = start + tc.gatherAllocInfo ∧ stop ≤ room
  | .element tc first index place room =>
      place = first + index * tc.gatherAllocInfo ∧ place + tc.gatherAllocInfo ≤ room

structure Walk.Agrees (tc : CTypeCode) (start : Nat) (w : Walk) : Prop where
  stop : w.stop = start + tc.gatherAllocInfo
  steps : ∀ s ∈ w.steps, s.Placed

namespace CTypeCode

theorem gatherAllocInfo_isAtom {tc : CTypeCode} (h : tc.isAtom = true) :
    tc.gatherAllocInfo = tc.skipAlias.kind.sizeof := by
  rw [← gatherAllocInfo_skipAlias]
  unfold isAtom at h
  generalize tc.skipAlias = t at h ⊢
  cases t with
  | node info subtypes discriminator =>
    have hi : (node info subtypes discriminator).kind = info.kind := rfl
    rw [hi] at h ⊢
    unfold gatherAllocInfo
    cases hk : info.kind <;> simp_all

theorem gatherAllocInfo_array_element {tc : CTypeCode} (h : tc.kind = .array) :
    tc.gatherAllocInfo = tc.element.gatherAllocInfo * tc.info.length := by
  rw [gatherAllocInfo_array h, gatherHead_eq, element, null]

theorem readsSwitch_isAtom {tc : CTypeCode} (h : tc.readsSwitch = true) :
    tc.isAtom = true ∧ Walker.implemented tc.skipAlias.kind = true ∧
      Walker.valueEquivalent.handles tc.skipAlias.kind = true := by
  unfold readsSwitch at h
  unfold isAtom
  cases hk : tc.skipAlias.kind <;> simp_all [Walker.implemented, Walker.valueEquivalent]

theorem arm_mem (tc : CTypeCode) (switch : Int) :
    tc.arm switch ∈ tc.subtypes ∨ tc.arm switch = null := by
  unfold arm
  split
  · rename_i i hi
    rcases Nat.lt_or_ge i tc.subtypes.length with h | h
    · left
      simp [List.getD, h]
    · right
      simp [List.getD, h]
  · exact Or.inr rfl

theorem arm_wellFormed {tc : CTypeCode} (h : tc.wellFormed = true) (switch : Int) :
    (tc.arm switch).wellFormed = true := by
  rcases tc.arm_mem switch with ha | ha
  · exact wellFormed_subtype h ha
  · rw [ha]
    rfl

theorem element_wellFormed {tc : CTypeCode} (h : tc.wellFormed = true) :
    tc.element.wellFormed = true := by
  unfold element
  cases hs : tc.subtypes with
  | nil => rfl
  | cons sub subtypes => exact wellFormed_subtype h (by rw [hs]; exact List.mem_cons_self)

theorem arm_le_widest (tc : CTypeCode) (switch : Int) :
    (tc.arm switch).gatherAllocInfo ≤ gatherWidest tc.subtypes := by
  rcases tc.arm_mem switch with h | h
  · exact gatherAllocInfo_le_widest h
  · rw [h]
    exact Nat.zero_le _

theorem unionFits_iff {tc : CTypeCode} (hk : tc.kind = .union) :
    tc.unionFits = true ↔
      tc.bodyOffset + alignUp (gatherWidest tc.subtypes) tc.findCAlignment = tc.gatherAllocInfo := by
  rw [unionFits, beq_iff_eq, gatherAllocInfo_union hk]

/-- Both halves of a union that fits lie inside it. -/
theorem unionFits_body {tc : CTypeCode} (hk : tc.kind = .union) (h : tc.unionFits = true)
    (switch : Int) : tc.bodyOffset + (tc.arm switch).gatherAllocInfo ≤ tc.gatherAllocInfo := by
  have hw := tc.arm_le_widest switch
  have ha := le_alignUp (gatherWidest tc.subtypes) tc.findCAlignment_pos
  have he := (unionFits_iff hk).1 h
  omega

theorem unionFits_discriminator {tc d : CTypeCode} (hk : tc.kind = .union)
    (h : tc.unionFits = true) (hd : tc.discriminator = some d) :
    d.gatherAllocInfo ≤ tc.gatherAllocInfo := by
  have ha := le_alignUp (gatherDiscriminator tc.discriminator) tc.findCAlignment_pos
  have he := (unionFits_iff hk).1 h
  simp only [bodyOffset] at he
  simp only [hd, gatherDiscriminator] at ha he
  omega

end CTypeCode

theorem allocTcval_eq {tc : CTypeCode} {n : Nat} (h : tc.gatherAllocInfo * n < 2^32) :
    tc.allocTcval n = tc.gatherAllocInfo * n := by
  rw [CTypeCode.allocTcval, Nat.mod_mul_mod, Nat.mod_eq_of_lt h]

namespace Walker

/-- What makes a walk agree with the layout where the value fits. -/
structure Lays (W : Walker) : Prop where
  union : ∀ tc : CTypeCode, tc.kind = .union → tc.unionFits = true →
    W.unionSize tc = tc.gatherAllocInfo
  room : ∀ tc n i, tc.gatherAllocInfo * n < 2^32 → n < 2^31 → i < n →
    (i+1) * tc.gatherAllocInfo ≤ W.room tc n i

theorem leaf_agrees {W : Walker} {block : List Nat} {room start : Nat} {tc : CTypeCode} {w : Walk}
    (hr : start + tc.gatherAllocInfo ≤ room) (h : W.leaf block room tc start = some w) :
    w.Agrees tc start := by
  unfold leaf at h
  split at h
  · rename_i ha
    have hs := CTypeCode.gatherAllocInfo_isAtom (Bool.and_eq_true _ _ ▸ ha).1
    cases h
    constructor
    · simp [hs]
    · intro s hm
      rw [List.mem_singleton] at hm
      subst hm
      exact ⟨by rw [hs], by rw [← hs]; exact hr⟩
  · cases h

mutual

theorem walk_agrees {W : Walker} (hW : W.Lays) : (v : CValue α) →
    ∀ ⦃block : List Nat⦄ ⦃room : Nat⦄ ⦃tc : CTypeCode⦄ ⦃start : Nat⦄ ⦃w : Walk⦄,
    v.conforms tc = true → v.fits tc = true → (W.anySize = 24 ∨ v.noAny = true) →
    start + tc.gatherAllocInfo ≤ room → W.walk block room tc start v = some w →
    w.Agrees tc start
  | .atom _ => by
    intro block room tc start w _ _ _ hr h
    exact leaf_agrees hr h
  | .any type value => by
    intro block room tc start w hc hf ha hr h
    simp only [CValue.conforms, Bool.and_eq_true, decide_eq_true_eq] at hc
    simp only [CValue.fits, Bool.and_eq_true, decide_eq_true_eq] at hf
    have h24 : W.anySize = 24 := by simpa [CValue.noAny] using ha
    have hg := CTypeCode.gatherAllocInfo_leaf (Or.inr hc.1.1)
    rw [CTypeCode.gatherAllocInfo_skipAlias] at hg
    rw [walk, if_pos hc.1.1] at h
    obtain ⟨w', hw, h⟩ := Option.bind_eq_some_iff.1 h
    cases h
    have hr' : 0 + type.gatherAllocInfo ≤ type.allocByTc := by
      rw [CTypeCode.allocByTc, Nat.mod_eq_of_lt hf.1]
      omega
    have hi := walk_agrees hW value hc.2 hf.2 (Or.inl h24) hr' hw
    constructor
    · simp [h24, hg]
    · intro s hs
      rcases List.mem_cons.1 hs with rfl | hs
      · exact ⟨by rw [h24, hg], by omega⟩
      · exact hi.steps s hs
  | .record members => by
    intro block room tc start w hc hf ha hr h
    simp only [CValue.conforms, Bool.and_eq_true, decide_eq_true_eq] at hc
    have hg := CTypeCode.gatherAllocInfo_record hc.1
    rw [CTypeCode.gatherAllocInfo_skipAlias] at hg
    have hl := le_alignUp (CTypeCode.gatherMembers 0 tc.skipAlias.subtypes)
      tc.skipAlias.findCAlignment_pos
    rw [walk, if_pos hc.1] at h
    obtain ⟨w', hw, h⟩ := Option.bind_eq_some_iff.1 h
    cases h
    have hm := walkMembers_agrees hW members hc.2 hf ha (by omega) hw
    constructor
    · simp [hm.1, hg]
    · intro s hs
      rcases List.mem_cons.1 hs with rfl | hs
      · exact ⟨by rw [hm.1, hg], by rw [hm.1]; omega⟩
      · exact hm.2 s hs
  | .union switch body => by
    intro block room tc start w hc hf ha hr h
    simp only [CValue.conforms, Bool.and_eq_true, decide_eq_true_eq] at hc
    simp only [CValue.fits, Bool.and_eq_true] at hf
    rw [walk, hc.1] at h
    cases hd : tc.skipAlias.discriminator with
    | none => simp [hd] at h
    | some d =>
      simp only [hd] at h
      obtain ⟨wd, hwd, h⟩ := Option.bind_eq_some_iff.1 h
      split at h
      · obtain ⟨wb, hwb, h⟩ := Option.bind_eq_some_iff.1 h
        cases h
        have hu := hW.union _ hc.1 hf.1.2
        have hb := CTypeCode.unionFits_body hc.1 hf.1.2 switch
        have hdl := CTypeCode.unionFits_discriminator hc.1 hf.1.2 hd
        rw [CTypeCode.gatherAllocInfo_skipAlias] at hu hb hdl
        have hda := leaf_agrees (by omega) hwd
        have hba := walk_agrees hW body hc.2 hf.2 ha (by omega) hwb
        constructor
        · simp [hu]
        · intro s hs
          rcases List.mem_cons.1 hs with rfl | hs
          · exact ⟨by rw [hu], by omega⟩
          · rcases List.mem_append.1 hs with hs | hs
            · exact hda.steps s hs
            · exact hba.steps s hs
      · cases h
  | .seq elements => by
    intro block room tc start w hc hf ha hr h
    simp only [CValue.conforms, Bool.and_eq_true, Bool.or_eq_true, decide_eq_true_eq] at hc
    simp only [CValue.fits, Bool.and_eq_true, Bool.or_eq_true, decide_eq_true_eq] at hf
    obtain ⟨⟨hn, hq⟩, he⟩ := hf
    rw [walk] at h
    split at h
    · rcases hc.1 with ⟨hk, hlt⟩ | ⟨hk, hlen⟩
      · -- the elements lie in a block of their own
        simp only [hk] at h
        obtain ⟨w', hw, h⟩ := Option.bind_eq_some_iff.1 h
        cases h
        have hg := CTypeCode.gatherAllocInfo_leaf (Or.inl hk)
        rw [CTypeCode.gatherAllocInfo_skipAlias] at hg
        have hq' := hq.resolve_left (fun hne => hne hk)
        have hes := walkElements_agrees hW elements hc.2 he ha (by simp : 0 = 0 + 0 * _)
          (fun j hj => by simpa using hW.room _ _ j hq' hn hj) hw
        constructor
        · simp [hg, TCKind.sizeof]
        · intro s hs
          rcases List.mem_cons.1 hs with rfl | hs
          · exact ⟨by rw [hg]; rfl, by rw [hg] at hr; exact hr⟩
          · exact hes.2 s hs
      · -- the elements fill the array
        simp only [hk] at h
        obtain ⟨w', hw, h⟩ := Option.bind_eq_some_iff.1 h
        cases h
        have hg := CTypeCode.gatherAllocInfo_array_element hk
        rw [CTypeCode.gatherAllocInfo_skipAlias, ← hlen, Nat.mul_comm] at hg
        have hes := walkElements_agrees hW elements hc.2 he ha (by simp : start = start + 0 * _)
          (fun j hj => by
            have hm := Nat.mul_le_mul_right tc.skipAlias.element.gatherAllocInfo
              (show j+1 ≤ elements.length from hj)
            simp only [Nat.zero_add]
            omega) hw
        have hstop : w'.stop = start + tc.gatherAllocInfo := by
          rw [hes.1, hg, Nat.zero_add]
        constructor
        · exact hstop
        · intro s hs
          rcases List.mem_cons.1 hs with rfl | hs
          · exact ⟨hstop, by omega⟩
          · exact hes.2 s hs
    · cases h

theorem walkMembers_agrees {W : Walker} (hW : W.Lays) : (vs : List (CValue α)) →
    ∀ ⦃block : List Nat⦄ ⦃room start : Nat⦄ ⦃tcs : List CTypeCode⦄ ⦃offset : Nat⦄ ⦃w : Walk⦄,
    CValue.conformAll tcs vs = true → CValue.fitAll tcs vs = true →
    (W.anySize = 24 ∨ CValue.noneAny vs = true) →
    start + CTypeCode.gatherMembers offset tcs ≤ room →
    W.walkMembers block room start tcs offset vs = some w →
    w.stop = CTypeCode.gatherMembers offset tcs ∧ ∀ s ∈ w.steps, s.Placed
  | [] => by
    intro block room start tcs offset w hc _ _ _ h
    cases tcs with
    | nil =>
      simp only [walkMembers, Option.some.injEq] at h
      subst h
      exact ⟨rfl, by simp⟩
    | cons tc tcs => simp [CValue.conformAll] at hc
  | v :: vs => by
    intro block room start tcs offset w hc hf ha hr h
    cases tcs with
    | nil => simp [CValue.conformAll] at hc
    | cons tc tcs =>
      simp only [CValue.conformAll, Bool.and_eq_true] at hc
      simp only [CValue.fitAll, Bool.and_eq_true] at hf
      simp only [CValue.noneAny, Bool.and_eq_true] at ha
      rw [CTypeCode.gatherMembers] at hr ⊢
      have hl := CTypeCode.le_gatherMembers
        (alignUp offset tc.findCAlignment + tc.gatherAllocInfo) tcs
      rw [walkMembers] at h
      obtain ⟨w₁, h₁, h⟩ := Option.bind_eq_some_iff.1 h
      obtain ⟨w₂, h₂, h⟩ := Option.bind_eq_some_iff.1 h
      cases h
      have hv := walk_agrees hW v hc.1 hf.1 (ha.imp_right And.left) (by omega) h₁
      have hvs := walkMembers_agrees hW vs hc.2 hf.2 (ha.imp_right And.right) hr h₂
      refine ⟨hvs.1, fun s hs => ?_⟩
      rcases List.mem_append.1 hs with hs | hs
      · exact hv.steps s hs
      · exact hvs.2 s hs

theorem walkElements_agrees {W : Walker} (hW : W.Lays) : (vs : List (CValue α)) →
    ∀ ⦃block : List Nat⦄ ⦃room : Nat → Nat⦄ ⦃tc : CTypeCode⦄ ⦃first index place : Nat⦄
      ⦃w : Walk⦄,
    CValue.conformEach tc vs = true → CValue.fitEach tc vs = true →
    (W.anySize = 24 ∨ CValue.noneAny vs = true) →
    place = first + index * tc.gatherAllocInfo →
    (∀ j < vs.length, first + (index+j+1) * tc.gatherAllocInfo ≤ room (index+j)) →
    W.walkElements block room tc first index place vs = some w →
    w.stop = first + (index + vs.length) * tc.gatherAllocInfo ∧ ∀ s ∈ w.steps, s.Placed
  | [] => by
    intro block room tc first index place w _ _ _ hp _ h
    simp only [walkElements, Option.some.injEq] at h
    subst h
    exact ⟨by simpa using hp, by simp⟩
  | v :: vs => by
    intro block room tc first index place w hc hf ha hp hr h
    simp only [CValue.conformEach, Bool.and_eq_true] at hc
    simp only [CValue.fitEach, Bool.and_eq_true] at hf
    simp only [CValue.noneAny, Bool.and_eq_true] at ha
    have hr₀ := hr 0 (by simp)
    rw [Nat.add_zero, Nat.succ_mul, ← Nat.add_assoc, ← hp] at hr₀
    rw [walkElements] at h
    obtain ⟨w₁, h₁, h⟩ := Option.bind_eq_some_iff.1 h
    obtain ⟨w₂, h₂, h⟩ := Option.bind_eq_some_iff.1 h
    cases h
    have hv := walk_agrees hW v hc.1 hf.1 (ha.imp_right And.left) hr₀ h₁
    have hnext : w₁.stop = first + (index+1) * tc.gatherAllocInfo := by
      rw [hv.stop, hp, Nat.succ_mul]
      omega
    have hvs := walkElements_agrees hW vs hc.2 hf.2 (ha.imp_right And.right) hnext
      (fun j hj => by
        have hj' := hr (j+1) (by simpa using hj)
        rwa [show index + (j+1) = index+1+j by omega] at hj') h₂
    constructor
    · rw [hvs.1, List.length_cons]
      congr 2
      omega
    · intro s hs
      rcases List.mem_cons.1 hs with rfl | hs
      · exact ⟨hp, hr₀⟩
      · rcases List.mem_append.1 hs with hs | hs
        · exact hv.steps s hs
        · exact hvs.2 s hs

end

mutual

theorem walk_total {W : Walker} (hh : ∀ k, implemented k = true → W.handles k = true)
    (hl : ∀ k k', 2^31 ≤ W.loopLimit k k') : (v : CValue α) →
    ∀ (block : List Nat) (room : Nat) (tc : CTypeCode) (start : Nat),
    v.conforms tc = true → v.fits tc = true → ∃ w, W.walk block room tc start v = some w
  | .atom _ => by
    intro block room tc start hc hf
    simp only [CValue.conforms] at hc
    simp only [CValue.fits] at hf
    rw [walk, leaf, hc, hh _ hf]
    exact ⟨_, rfl⟩
  | .any type value => by
    intro block room tc start hc hf
    simp only [CValue.conforms, Bool.and_eq_true, decide_eq_true_eq] at hc
    simp only [CValue.fits, Bool.and_eq_true, decide_eq_true_eq] at hf
    obtain ⟨w, hw⟩ := walk_total hh hl value (start :: block) type.allocByTc type 0 hc.2 hf.2
    rw [walk, if_pos hc.1.1, hw]
    exact ⟨_, rfl⟩
  | .record members => by
    intro block room tc start hc hf
    simp only [CValue.conforms, Bool.and_eq_true, decide_eq_true_eq] at hc
    obtain ⟨w, hw⟩ := walkMembers_total hh hl members block room start tc.skipAlias.subtypes 0
      hc.2 hf
    rw [walk, if_pos hc.1, hw]
    exact ⟨_, rfl⟩
  | .union switch body => by
    intro block room tc start hc hf
    simp only [CValue.conforms, Bool.and_eq_true, decide_eq_true_eq] at hc
    simp only [CValue.fits, Bool.and_eq_true] at hf
    cases hd : tc.skipAlias.discriminator with
    | none => simp [hd] at hf
    | some d =>
      have hs : d.readsSwitch = true := by simpa [hd] using hf.1.1
      have hds := CTypeCode.readsSwitch_isAtom hs
      obtain ⟨w, hw⟩ := walk_total hh hl body block room (tc.skipAlias.arm switch)
        (start + tc.skipAlias.bodyOffset) hc.2 hf.2
      rw [walk, hc.1]
      simp only [hd]
      rw [leaf, hds.1, hh _ hds.2.1]
      simp [hs, hw]
  | .seq elements => by
    intro block room tc start hc hf
    simp only [CValue.conforms, Bool.and_eq_true, Bool.or_eq_true, decide_eq_true_eq] at hc
    simp only [CValue.fits, Bool.and_eq_true, Bool.or_eq_true, decide_eq_true_eq] at hf
    have hn := Nat.lt_of_lt_of_le hf.1.1 (hl tc.skipAlias.kind tc.skipAlias.element.kind)
    rw [walk, if_pos hn]
    rcases hc.1 with ⟨hk, _⟩ | ⟨hk, _⟩
    · obtain ⟨w, hw⟩ := walkElements_total hh hl elements (start :: block)
        (W.room tc.skipAlias.element elements.length) tc.skipAlias.element 0 0 0 hc.2 hf.2
      simp [hk, hw]
    · obtain ⟨w, hw⟩ := walkElements_total hh hl elements block (fun _ => room)
        tc.skipAlias.element start 0 start hc.2 hf.2
      simp [hk, hw]

theorem walkMembers_total {W : Walker} (hh : ∀ k, implemented k = true → W.handles k = true)
    (hl : ∀ k k', 2^31 ≤ W.loopLimit k k') : (vs : List (CValue α)) →
    ∀ (block : List Nat) (room start : Nat) (tcs : List CTypeCode) (offset : Nat),
    CValue.conformAll tcs vs = true → CValue.fitAll tcs vs = true →
    ∃ w, W.walkMembers block room start tcs offset vs = some w
  | [] => by
    intro block room start tcs offset hc _
    cases tcs with
    | nil => exact ⟨_, rfl⟩
    | cons tc tcs => simp [CValue.conformAll] at hc
  | v :: vs => by
    intro block room start tcs offset hc hf
    cases tcs with
    | nil => simp [CValue.conformAll] at hc
    | cons tc tcs =>
      simp only [CValue.conformAll, Bool.and_eq_true] at hc
      simp only [CValue.fitAll, Bool.and_eq_true] at hf
      obtain ⟨w₁, h₁⟩ := walk_total hh hl v block room tc
        (start + alignUp offset tc.findCAlignment) hc.1 hf.1
      obtain ⟨w₂, h₂⟩ := walkMembers_total hh hl vs block room start tcs
        (alignUp offset tc.findCAlignment + tc.gatherAllocInfo) hc.2 hf.2
      rw [walkMembers]
      simp [h₁, h₂]

theorem walkElements_total {W : Walker} (hh : ∀ k, implemented k = true → W.handles k = true)
    (hl : ∀ k k', 2^31 ≤ W.loopLimit k k') : (vs : List (CValue α)) →
    ∀ (block : List Nat) (room : Nat → Nat) (tc : CTypeCode) (first index place : Nat),
    CValue.conformEach tc vs = true → CValue.fitEach tc vs = true →
    ∃ w, W.walkElements block room tc first index place vs = some w
  | [] => by
    intro block room tc first index place _ _
    exact ⟨_, rfl⟩
  | v :: vs => by
    intro block room tc first index place hc hf
    simp only [CValue.conformEach, Bool.and_eq_true] at hc
    simp only [CValue.fitEach, Bool.and_eq_true] at hf
    obtain ⟨w₁, h₁⟩ := walk_total hh hl v block (room index) tc place hc.1 hf.1
    obtain ⟨w₂, h₂⟩ := walkElements_total hh hl vs block room tc first (index+1) w₁.stop hc.2 hf.2
    rw [walkElements]
    simp [h₁, h₂]

end

/-- Every walk begins with its own call. -/
theorem call_mem {W : Walker} {block : List Nat} {room start : Nat} {tc : CTypeCode} {w : Walk}
    {v : CValue α} (h : W.walk block room tc start v = some w) :
    .call block tc start w.stop room ∈ w.steps := by
  cases v with
  | atom content =>
    rw [walk, leaf] at h
    split at h
    · cases h
      simp
    · cases h
  | any type value =>
    rw [walk] at h
    split at h
    · obtain ⟨w', _, h⟩ := Option.bind_eq_some_iff.1 h
      cases h
      simp
    · cases h
  | record members =>
    rw [walk] at h
    split at h
    · obtain ⟨w', _, h⟩ := Option.bind_eq_some_iff.1 h
      cases h
      simp
    · cases h
  | union switch body =>
    rw [walk] at h
    split at h
    · obtain ⟨d, _, h⟩ := Option.bind_eq_some_iff.1 h
      split at h
      · obtain ⟨w', _, h⟩ := Option.bind_eq_some_iff.1 h
        cases h
        simp
      · cases h
    · cases h
  | seq elements =>
    rw [walk] at h
    split at h
    · split at h
      · obtain ⟨w', _, h⟩ := Option.bind_eq_some_iff.1 h
        cases h
        simp
      · obtain ⟨w', _, h⟩ := Option.bind_eq_some_iff.1 h
        cases h
        simp
      · cases h
    · cases h

/-- The last element of a loop is gone through. -/
theorem element_mem {W : Walker} {block : List Nat} {room : Nat → Nat} {tc : CTypeCode}
    {first : Nat} {vs : List (CValue α)} :
    ∀ {index place : Nat} {w : Walk},
    W.walkElements block room tc first index place vs = some w → vs ≠ [] →
    ∃ place', .element tc first (index + (vs.length-1)) place' (room (index + (vs.length-1))) ∈
      w.steps := by
  induction vs with
  | nil =>
    intro index place w _ hne
    exact absurd rfl hne
  | cons v vs ih =>
    intro index place w h _
    rw [walkElements] at h
    obtain ⟨w₁, h₁, h⟩ := Option.bind_eq_some_iff.1 h
    obtain ⟨w₂, h₂, h⟩ := Option.bind_eq_some_iff.1 h
    cases h
    cases vs with
    | nil => exact ⟨place, by simp⟩
    | cons v' vs =>
      obtain ⟨place', hm⟩ := ih h₂ (by simp)
      refine ⟨place', ?_⟩
      have hi : index + 1 + ((v' :: vs).length - 1) = index + ((v :: v' :: vs).length - 1) := by
        simp only [List.length_cons]
        omega
      rw [hi] at hm
      exact List.mem_cons_of_mem _ (List.mem_append_right _ hm)

theorem growAlloc_gt {i : Nat} (h : i < 2^31) : i < growAlloc i := by
  induction i with
  | zero => decide
  | succ i ih =>
    have hi := ih (by omega)
    rw [growAlloc]
    split
    · omega
    · omega

theorem size_of_isOctet {tc : CTypeCode} (h : isOctet tc.kind = true) :
    tc.gatherAllocInfo = 1 := by
  cases tc with
  | node info subtypes discriminator =>
    have hi : (CTypeCode.node info subtypes discriminator).kind = info.kind := rfl
    rw [hi] at h
    rw [CTypeCode.gatherAllocInfo]
    cases hk : info.kind <;> simp_all [isOctet, TCKind.sizeof]

theorem alignment_dvd_union {tc : CTypeCode} (hk : tc.kind = .union) :
    tc.findCAlignment ∣ tc.gatherAllocInfo := by
  rw [CTypeCode.gatherAllocInfo_union hk]
  exact dvd_alignUp _ _

/-- One block for all the elements is as long as they are together. -/
theorem room_allocTcval {tc : CTypeCode} {n i : Nat} (h : tc.gatherAllocInfo * n < 2^32)
    (hi : i < n) : (i+1) * tc.gatherAllocInfo ≤ tc.allocTcval n := by
  rw [allocTcval_eq h, Nat.mul_comm]
  exact Nat.mul_le_mul_left _ hi

theorem marshalValue_lays : marshalValue.Lays where
  union _ hk h := (CTypeCode.unionFits_iff hk).1 h
  room _ _ _ h _ hi := room_allocTcval h hi

theorem copyValueCore_lays : copyValueCore.Lays where
  union _ _ _ := rfl
  room _ _ _ h _ hi := room_allocTcval h hi

theorem valueEquivalent_lays : valueEquivalent.Lays where
  union tc hk _ := alignUp_eq_of_dvd tc.findCAlignment_pos (alignment_dvd_union hk)
  room _ _ _ h _ hi := room_allocTcval h hi

theorem demarshalValue_lays : demarshalValue.Lays where
  union _ hk h := (CTypeCode.unionFits_iff hk).1 h
  room tc n i h hn hi := by
    unfold demarshalValue
    dsimp only
    split
    · rename_i ho
      rw [size_of_isOctet ho]
      omega
    · have hg := growAlloc_gt (show i < 2^31 by omega)
      have hm := Nat.mul_le_mul_left tc.gatherAllocInfo (Nat.min_le_left n (growAlloc i))
      exact room_allocTcval (by omega) (by omega)

theorem demarshalValue_loopLimit (k k' : TCKind) : 2^31 ≤ demarshalValue.loopLimit k k' := by
  cases k <;> cases k' <;> decide

end Walker

end ORBit2
