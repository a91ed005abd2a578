import ORBit2.LayoutAgreement

/-! The walks over a value agree with its layout exactly when the value fits. -/

set_option autoImplicit false

namespace ORBit2
open Words

variable {α : Type}

namespace Walker

mutual

/-- Where `ORBit_marshal_value` does no wrong step and `ORBit_copy_value_core` gets through,
the value fits. -/
theorem fits_of_placed : (v : CValue α) →
    ∀ ⦃block block' : List Nat⦄ ⦃room room' : Nat⦄ ⦃tc : CTypeCode⦄ ⦃start start' : Nat⦄
      ⦃w w' : Walk⦄,
    marshalValue.walk block room tc start v = some w → (∀ s ∈ w.steps, s.Placed) →
    copyValueCore.walk block' room' tc start' v = some w' → v.fits tc = true
  | .atom _ => by
    intro block block' room room' tc start start' w w' h _ _
    rw [walk, leaf] at h
    split at h
    · rename_i ha
      exact (Bool.and_eq_true _ _ ▸ ha).2
    · cases h
  | .any type value => by
    intro block block' room room' tc start start' w w' h hp h'
    rw [walk] at h h'
    split at h
    · rename_i hk
      rw [if_pos hk] at h'
      obtain ⟨u, hu, h⟩ := Option.bind_eq_some_iff.1 h
      obtain ⟨u', hu', h'⟩ := Option.bind_eq_some_iff.1 h'
      cases h
      have hi : ∀ s ∈ u.steps, s.Placed := fun s hs => hp s (List.mem_cons_of_mem _ hs)
      have hf := fits_of_placed value hu hi hu'
      obtain ⟨hs, hr⟩ := hi _ (call_mem hu)
      rw [CTypeCode.allocByTc] at hr
      have hlt := Nat.mod_lt type.gatherAllocInfo (show 2^32 > 0 by omega)
      simp only [CValue.fits, Bool.and_eq_true, decide_eq_true_eq]
      exact ⟨by omega, hf⟩
    · cases h
  | .record members => by
    intro block block' room room' tc start start' w w' h hp h'
    rw [walk] at h h'
    split at h
    · rename_i hk
      rw [if_pos hk] at h'
      obtain ⟨u, hu, h⟩ := Option.bind_eq_some_iff.1 h
      obtain ⟨u', hu', h'⟩ := Option.bind_eq_some_iff.1 h'
      cases h
      exact fitAll_of_placed members hu (fun s hs => hp s (List.mem_cons_of_mem _ hs)) hu'
    · cases h
  | .union switch body => by
    intro block block' room room' tc start start' w w' h hp h'
    rw [walk] at h h'
    split at h
    · rename_i d hk hd
      simp only [hk, hd] at h'
      obtain ⟨e, he, h⟩ := Option.bind_eq_some_iff.1 h
      obtain ⟨e', he', h'⟩ := Option.bind_eq_some_iff.1 h'
      split at h
      · rename_i hs
        rw [if_pos hs] at h'
        obtain ⟨u, hu, h⟩ := Option.bind_eq_some_iff.1 h
        obtain ⟨u', hu', h'⟩ := Option.bind_eq_some_iff.1 h'
        cases h
        obtain ⟨hw, _⟩ := hp _ List.mem_cons_self
        have hb := fits_of_placed body hu (fun s hm =>
          hp s (List.mem_cons_of_mem _ (List.mem_append_right _ hm))) hu'
        simp only [CValue.fits, Bool.and_eq_true]
        refine ⟨⟨by rw [hd]; exact hs, ?_⟩, hb⟩
        rw [CTypeCode.unionFits_iff hk, CTypeCode.gatherAllocInfo_skipAlias]
        simp only [marshalValue] at hw
        omega
      · cases h
    · cases h
  | .seq elements => by
    intro block block' room room' tc start start' w w' h hp h'
    rw [walk] at h h'
    split at h'
    · rename_i hn
      have hn' : elements.length < 2^31 := hn
      have hm : elements.length < marshalValue.loopLimit tc.skipAlias.kind
          tc.skipAlias.element.kind := show elements.length < 2^32 by omega
      rw [if_pos hm] at h
      simp only [CValue.fits, Bool.and_eq_true, Bool.or_eq_true, decide_eq_true_eq]
      split at h
      · rename_i hk
        simp only [hk] at h'
        obtain ⟨u, hu, h⟩ := Option.bind_eq_some_iff.1 h
        obtain ⟨u', hu', h'⟩ := Option.bind_eq_some_iff.1 h'
        cases h
        have hi : ∀ s ∈ u.steps, s.Placed := fun s hs => hp s (List.mem_cons_of_mem _ hs)
        refine ⟨⟨hn', Or.inr ?_⟩, fitEach_of_placed elements hu hi hu'⟩
        -- the last element shows how long the block is
        cases elements with
        | nil => simp
        | cons v vs =>
          obtain ⟨place, hm⟩ := element_mem hu (by simp)
          obtain ⟨hplace, hroom⟩ := hi _ hm
          have hr : marshalValue.room tc.skipAlias.element (v :: vs).length
              (0 + ((v :: vs).length - 1)) =
              tc.skipAlias.element.gatherAllocInfo * (v :: vs).length % 2^32 :=
            Nat.mod_mul_mod _ _ _
          rw [hr, hplace] at hroom
          have hlt := Nat.mod_lt (tc.skipAlias.element.gatherAllocInfo * (v :: vs).length)
            (show 2^32 > 0 by omega)
          have hlast : 0 + (0 + ((v :: vs).length - 1)) * tc.skipAlias.element.gatherAllocInfo +
              tc.skipAlias.element.gatherAllocInfo =
              tc.skipAlias.element.gatherAllocInfo * (v :: vs).length := by
            simp only [List.length_cons, Nat.add_sub_cancel, Nat.zero_add]
            ring
          omega
      · rename_i hk
        simp only [hk] at h'
        obtain ⟨u, hu, h⟩ := Option.bind_eq_some_iff.1 h
        obtain ⟨u', hu', h'⟩ := Option.bind_eq_some_iff.1 h'
        cases h
        exact ⟨⟨hn', Or.inl (by rw [hk]; decide)⟩, fitEach_of_placed elements hu
          (fun s hs => hp s (List.mem_cons_of_mem _ hs)) hu'⟩
      · cases h
    · cases h'

theorem fitAll_of_placed : (vs : List (CValue α)) →
    ∀ ⦃block block' : List Nat⦄ ⦃room room' start start' : Nat⦄ ⦃tcs : List CTypeCode⦄
      ⦃offset offset' : Nat⦄ ⦃w w' : Walk⦄,
    marshalValue.walkMembers block room start tcs offset vs = some w →
    (∀ s ∈ w.steps, s.Placed) →
    copyValueCore.walkMembers block' room' start' tcs offset' vs = some w' →
    CValue.fitAll tcs vs = true
  | [] => by
    intro block block' room room' start start' tcs offset offset' w w' _ _ _
    cases tcs <;> rfl
  | v :: vs => by
    intro block block' room room' start start' tcs offset offset' w w' h hp h'
    cases tcs with
    | nil => rfl
    | cons tc tcs =>
      rw [walkMembers] at h h'
      obtain ⟨w₁, h₁, h⟩ := Option.bind_eq_some_iff.1 h
      obtain ⟨w₂, h₂, h⟩ := Option.bind_eq_some_iff.1 h
      obtain ⟨w₁', h₁', h'⟩ := Option.bind_eq_some_iff.1 h'
      obtain ⟨w₂', h₂', h'⟩ := Option.bind_eq_some_iff.1 h'
      cases h
      have hv := fits_of_placed v h₁ (fun s hs => hp s (List.mem_append_left _ hs)) h₁'
      have hvs := fitAll_of_placed vs h₂ (fun s hs => hp s (List.mem_append_right _ hs)) h₂'
      rw [CValue.fitAll, hv, hvs]
      rfl

theorem fitEach_of_placed : (vs : List (CValue α)) →
    ∀ ⦃block block' : List Nat⦄ ⦃room room' : Nat → Nat⦄ ⦃tc : CTypeCode⦄
      ⦃first first' index index' place place' : Nat⦄ ⦃w w' : Walk⦄,
    marshalValue.walkElements block room tc first index place vs = some w →
    (∀ s ∈ w.steps, s.Placed) →
    copyValueCore.walkElements block' room' tc first' index' place' vs = some w' →
    CValue.fitEach tc vs = true
  | [] => by
    intros
    rfl
  | v :: vs => by
    intro block block' room room' tc first first' index index' place place' w w' h hp h'
    rw [walkElements] at h h'
    obtain ⟨w₁, h₁, h⟩ := Option.bind_eq_some_iff.1 h
    obtain ⟨w₂, h₂, h⟩ := Option.bind_eq_some_iff.1 h
    obtain ⟨w₁', h₁', h'⟩ := Option.bind_eq_some_iff.1 h'
    obtain ⟨w₂', h₂', h'⟩ := Option.bind_eq_some_iff.1 h'
    cases h
    have hv := fits_of_placed v h₁ (fun s hs =>
      hp s (List.mem_cons_of_mem _ (List.mem_append_left _ hs))) h₁'
    have hvs := fitEach_of_placed vs h₂ (fun s hs =>
      hp s (List.mem_cons_of_mem _ (List.mem_append_right _ hs))) h₂'
    rw [CValue.fitEach, hv, hvs]
    rfl

end

end Walker

namespace Verdicts

mutual

/-- Without an any, `ORBit_value_equivalent` walks like the others. -/
theorem walk_of_equivalent {V : Verdicts α} : (v : CValue α) →
    ∀ ⦃v' : CValue α⦄ ⦃block : List Nat⦄ ⦃room : Nat⦄ ⦃tc : CTypeCode⦄ ⦃start : Nat⦄ ⦃w : Walk⦄,
    V.valueEquivalent block room tc start v v' = some w → v.noAny = true →
    Walker.valueEquivalent.walk block room tc start v = some w
  | .atom a => by
    intro v' block room tc start w h _
    cases v' with
    | atom b =>
      rw [valueEquivalent] at h
      split at h
      · exact h
      · cases h
    | _ => cases h
  | .any type value => by
    intro v' block room tc start w _ ha
    cases ha
  | .record members => by
    intro v' block room tc start w h ha
    cases v' with
    | record members' =>
      rw [valueEquivalent] at h
      split at h
      · rename_i hk
        obtain ⟨u, hu, h⟩ := Option.bind_eq_some_iff.1 h
        have hm := walkMembers_of_equivalent members hu ha
        rw [Walker.walk, if_pos hk, hm]
        exact h
      · cases h
    | _ => cases h
  | .union switch body => by
    intro v' block room tc start w h ha
    cases v' with
    | union switch' body' =>
      rw [valueEquivalent] at h
      split at h
      · rename_i d hk hd
        split at h
        · obtain ⟨e, he, h⟩ := Option.bind_eq_some_iff.1 h
          split at h
          · rename_i hs
            obtain ⟨u, hu, h⟩ := Option.bind_eq_some_iff.1 h
            have hb := walk_of_equivalent body hu ha
            rw [Walker.walk]
            simp only [hk, hd, he, Option.bind_eq_bind, Option.bind_some, hs, if_true, hb]
            exact h
          · cases h
        · cases h
      · cases h
    | _ => cases h
  | .seq elements => by
    intro v' block room tc start w h ha
    cases v' with
    | seq elements' =>
      rw [valueEquivalent] at h
      split at h
      · rename_i hn
        rw [Walker.walk, if_pos hn]
        split at h
        · rename_i hk
          obtain ⟨u, hu, h⟩ := Option.bind_eq_some_iff.1 h
          have he := walkElements_of_equivalent elements hu ha
          simp only [he]
          exact h
        · rename_i hk
          obtain ⟨u, hu, h⟩ := Option.bind_eq_some_iff.1 h
          have he := walkElements_of_equivalent elements hu ha
          simp only [he]
          exact h
        · cases h
      · cases h
    | _ => cases h

theorem walkMembers_of_equivalent {V : Verdicts α} : (vs : List (CValue α)) →
    ∀ ⦃vs' : List (CValue α)⦄ ⦃block : List Nat⦄ ⦃room start : Nat⦄ ⦃tcs : List CTypeCode⦄
      ⦃offset : Nat⦄ ⦃w : Walk⦄,
    V.equivalentMembers block room start tcs offset vs vs' = some w → CValue.noneAny vs = true →
    Walker.valueEquivalent.walkMembers block room start tcs offset vs = some w
  | [] => by
    intro vs' block room start tcs offset w h _
    cases tcs with
    | nil =>
      cases vs' with
      | nil => exact h
      | cons v' vs' => cases h
    | cons tc tcs => cases h
  | v :: vs => by
    intro vs' block room start tcs offset w h ha
    rw [CValue.noneAny, Bool.and_eq_true] at ha
    cases tcs with
    | nil => cases h
    | cons tc tcs =>
      cases vs' with
      | nil => cases h
      | cons v' vs' =>
        rw [equivalentMembers] at h
        obtain ⟨w₁, h₁, h⟩ := Option.bind_eq_some_iff.1 h
        obtain ⟨w₂, h₂, h⟩ := Option.bind_eq_some_iff.1 h
        rw [Walker.walkMembers, walk_of_equivalent v h₁ ha.1]
        simp only [Option.bind_eq_bind, Option.bind_some]
        rw [walkMembers_of_equivalent vs h₂ ha.2]
        exact h

theorem walkElements_of_equivalent {V : Verdicts α} : (vs : List (CValue α)) →
    ∀ ⦃vs' : List (CValue α)⦄ ⦃block : List Nat⦄ ⦃room : Nat → Nat⦄ ⦃tc : CTypeCode⦄
      ⦃first index place : Nat⦄ ⦃w : Walk⦄,
    V.equivalentElements block room tc first index place vs vs' = some w →
    CValue.noneAny vs = true →
    Walker.valueEquivalent.walkElements block room tc first index place vs = some w
  | [] => by
    intro vs' block room tc first index place w h _
    cases vs' with
    | nil => exact h
    | cons v' vs' => cases h
  | v :: vs => by
    intro vs' block room tc first index place w h ha
    rw [CValue.noneAny, Bool.and_eq_true] at ha
    cases vs' with
    | nil => cases h
    | cons v' vs' =>
      rw [equivalentElements] at h
      obtain ⟨w₁, h₁, h⟩ := Option.bind_eq_some_iff.1 h
      obtain ⟨w₂, h₂, h⟩ := Option.bind_eq_some_iff.1 h
      rw [Walker.walkElements, walk_of_equivalent v h₁ ha.1]
      simp only [Option.bind_eq_bind, Option.bind_some]
      rw [walkElements_of_equivalent vs h₂ ha.2]
      exact h

end

mutual

/-- An any that is compared moves the pointer too little. -/
theorem misplaced_of_any {V : Verdicts α} : (v : CValue α) →
    ∀ ⦃v' : CValue α⦄ ⦃block : List Nat⦄ ⦃room : Nat⦄ ⦃tc : CTypeCode⦄ ⦃start : Nat⦄ ⦃w : Walk⦄,
    V.valueEquivalent block room tc start v v' = some w → v.noAny = false →
    ∃ s ∈ w.steps, ¬ s.Placed
  | .atom _ => by
    intro v' block room tc start w _ ha
    cases ha
  | .any type value => by
    intro v' block room tc start w h _
    cases v' with
    | any type' value' =>
      rw [valueEquivalent] at h
      split at h
      · rename_i hk
        cases h
        have hg := CTypeCode.gatherAllocInfo_leaf (Or.inr hk.1)
        rw [CTypeCode.gatherAllocInfo_skipAlias] at hg
        refine ⟨_, List.mem_singleton_self _, fun hp => ?_⟩
        have h8 : start + 8 = start + tc.gatherAllocInfo := hp.1
        omega
      · cases h
    | _ => cases h
  | .record members => by
    intro v' block room tc start w h ha
    cases v' with
    | record members' =>
      rw [valueEquivalent] at h
      split at h
      · obtain ⟨u, hu, h⟩ := Option.bind_eq_some_iff.1 h
        cases h
        obtain ⟨s, hs, hp⟩ := misplaced_of_members members hu ha
        exact ⟨s, List.mem_cons_of_mem _ hs, hp⟩
      · cases h
    | _ => cases h
  | .union switch body => by
    intro v' block room tc start w h ha
    cases v' with
    | union switch' body' =>
      rw [valueEquivalent] at h
      split at h
      · split at h
        · obtain ⟨e, he, h⟩ := Option.bind_eq_some_iff.1 h
          split at h
          · obtain ⟨u, hu, h⟩ := Option.bind_eq_some_iff.1 h
            cases h
            obtain ⟨s, hs, hp⟩ := misplaced_of_any body hu ha
            exact ⟨s, List.mem_cons_of_mem _ (List.mem_append_right _ hs), hp⟩
          · cases h
        · cases h
      · cases h
    | _ => cases h
  | .seq elements => by
    intro v' block room tc start w h ha
    cases v' with
    | seq elements' =>
      rw [valueEquivalent] at h
      split at h
      · split at h
        · obtain ⟨u, hu, h⟩ := Option.bind_eq_some_iff.1 h
          cases h
          obtain ⟨s, hs, hp⟩ := misplaced_of_elements elements hu ha
          exact ⟨s, List.mem_cons_of_mem _ hs, hp⟩
        · obtain ⟨u, hu, h⟩ := Option.bind_eq_some_iff.1 h
          cases h
          obtain ⟨s, hs, hp⟩ := misplaced_of_elements elements hu ha
          exact ⟨s, List.mem_cons_of_mem _ hs, hp⟩
        · cases h
      · cases h
    | _ => cases h

theorem misplaced_of_members {V : Verdicts α} : (vs : List (CValue α)) →
    ∀ ⦃vs' : List (CValue α)⦄ ⦃block : List Nat⦄ ⦃room start : Nat⦄ ⦃tcs : List CTypeCode⦄
      ⦃offset : Nat⦄ ⦃w : Walk⦄,
    V.equivalentMembers block room start tcs offset vs vs' = some w → CValue.noneAny vs = false →
    ∃ s ∈ w.steps, ¬ s.Placed
  | [] => by
    intro vs' block room start tcs offset w _ ha
    cases ha
  | v :: vs => by
    intro vs' block room start tcs offset w h ha
    rw [CValue.noneAny, Bool.and_eq_false_iff] at ha
    cases tcs with
    | nil => cases h
    | cons tc tcs =>
      cases vs' with
      | nil => cases h
      | cons v' vs' =>
        rw [equivalentMembers] at h
        obtain ⟨w₁, h₁, h⟩ := Option.bind_eq_some_iff.1 h
        obtain ⟨w₂, h₂, h⟩ := Option.bind_eq_some_iff.1 h
        cases h
        rcases ha with ha | ha
        · obtain ⟨s, hs, hp⟩ := misplaced_of_any v h₁ ha
          exact ⟨s, List.mem_append_left _ hs, hp⟩
        · obtain ⟨s, hs, hp⟩ := misplaced_of_members vs h₂ ha
          exact ⟨s, List.mem_append_right _ hs, hp⟩

theorem misplaced_of_elements {V : Verdicts α} : (vs : List (CValue α)) →
    ∀ ⦃vs' : List (CValue α)⦄ ⦃block : List Nat⦄ ⦃room : Nat → Nat⦄ ⦃tc : CTypeCode⦄
      ⦃first index place : Nat⦄ ⦃w : Walk⦄,
    V.equivalentElements block room tc first index place vs vs' = some w →
    CValue.noneAny vs = false → ∃ s ∈ w.steps, ¬ s.Placed
  | [] => by
    intro vs' block room tc first index place w _ ha
    cases ha
  | v :: vs => by
    intro vs' block room tc first index place w h ha
    rw [CValue.noneAny, Bool.and_eq_false_iff] at ha
    cases vs' with
    | nil => cases h
    | cons v' vs' =>
      rw [equivalentElements] at h
      obtain ⟨w₁, h₁, h⟩ := Option.bind_eq_some_iff.1 h
      obtain ⟨w₂, h₂, h⟩ := Option.bind_eq_some_iff.1 h
      cases h
      rcases ha with ha | ha
      · obtain ⟨s, hs, hp⟩ := misplaced_of_any v h₁ ha
        exact ⟨s, List.mem_cons_of_mem _ (List.mem_append_left _ hs), hp⟩
      · obtain ⟨s, hs, hp⟩ := misplaced_of_elements vs h₂ ha
        exact ⟨s, List.mem_cons_of_mem _ (List.mem_append_right _ hs), hp⟩

end

/-- The comparison that finds no difference anywhere. -/
def allSame : Verdicts α := ⟨fun _ _ _ => true, fun _ _ => true⟩

mutual

theorem equivalent_self : (v : CValue α) →
    ∀ (block : List Nat) (room : Nat) (tc : CTypeCode) (start : Nat), tc.wellFormed = true →
    v.conforms tc = true → v.fits tc = true → v.comparable tc = true →
    ∃ w, allSame.valueEquivalent block room tc start v v = some w
  | .atom a => by
    intro block room tc start _ hc _ he
    simp only [CValue.conforms] at hc
    simp only [CValue.comparable] at he
    rw [valueEquivalent, Walker.leaf, hc, he]
    exact ⟨_, rfl⟩
  | .any type value => by
    intro block room tc start _ hc _ _
    simp only [CValue.conforms, Bool.and_eq_true, decide_eq_true_eq] at hc
    rw [valueEquivalent, if_pos ⟨hc.1.1, rfl⟩]
    exact ⟨_, rfl⟩
  | .record members => by
    intro block room tc start ht hc hf he
    simp only [CValue.conforms, Bool.and_eq_true, decide_eq_true_eq] at hc
    have ht' := CTypeCode.wellFormed_skipAlias tc ht
    obtain ⟨w, hw⟩ := equivalentMembers_self members block room start tc.skipAlias.subtypes 0
      (fun sub hs => CTypeCode.wellFormed_subtype ht' hs) hc.2 hf he
    rw [valueEquivalent, if_pos hc.1, hw]
    exact ⟨_, rfl⟩
  | .union switch body => by
    intro block room tc start ht hc hf he
    simp only [CValue.conforms, Bool.and_eq_true, decide_eq_true_eq] at hc
    simp only [CValue.fits, Bool.and_eq_true] at hf
    have ht' := CTypeCode.wellFormed_skipAlias tc ht
    have ha := CTypeCode.arm_wellFormed ht' switch
    cases hd : tc.skipAlias.discriminator with
    | none => simp [hd] at hf
    | some d =>
      have hs : d.readsSwitch = true := by simpa [hd] using hf.1.1
      have hds := CTypeCode.readsSwitch_isAtom hs
      obtain ⟨w, hw⟩ := equivalent_self body block room (tc.skipAlias.arm switch)
        (start + tc.skipAlias.bodyOffset) ha hc.2 hf.2 he
      have hsame : sameSwitch d switch switch = true := by simp [sameSwitch]
      rw [valueEquivalent, hc.1]
      simp only [hd]
      rw [if_pos ⟨CTypeCode.equal_self ha, hsame⟩, Walker.leaf, hds.1, hds.2.2]
      simp [hs, hw]
  | .seq elements => by
    intro block room tc start ht hc hf he
    simp only [CValue.conforms, Bool.and_eq_true, Bool.or_eq_true, decide_eq_true_eq] at hc
    simp only [CValue.fits, Bool.and_eq_true, Bool.or_eq_true, decide_eq_true_eq] at hf
    have hw := CTypeCode.element_wellFormed (CTypeCode.wellFormed_skipAlias tc ht)
    have hn : elements.length < Walker.valueEquivalent.loopLimit tc.skipAlias.kind
        tc.skipAlias.element.kind := hf.1.1
    rw [valueEquivalent, if_pos hn]
    rcases hc.1 with ⟨hk, _⟩ | ⟨hk, _⟩
    · obtain ⟨w, hw⟩ := equivalentElements_self elements (start :: block)
        (Walker.valueEquivalent.room tc.skipAlias.element elements.length) tc.skipAlias.element
        0 0 0 hw hc.2 hf.2 he
      simp [hk, hw]
    · obtain ⟨w, hw⟩ := equivalentElements_self elements block (fun _ => room)
        tc.skipAlias.element start 0 start hw hc.2 hf.2 he
      simp [hk, hw]

theorem equivalentMembers_self : (vs : List (CValue α)) →
    ∀ (block : List Nat) (room start : Nat) (tcs : List CTypeCode) (offset : Nat),
    (∀ tc ∈ tcs, tc.wellFormed = true) → CValue.conformAll tcs vs = true →
    CValue.fitAll tcs vs = true → CValue.comparableAll tcs vs = true →
    ∃ w, allSame.equivalentMembers block room start tcs offset vs vs = some w
  | [] => by
    intro block room start tcs offset _ hc _ _
    cases tcs with
    | nil => exact ⟨_, rfl⟩
    | cons tc tcs => simp [CValue.conformAll] at hc
  | v :: vs => by
    intro block room start tcs offset ht hc hf he
    cases tcs with
    | nil => simp [CValue.conformAll] at hc
    | cons tc tcs =>
      simp only [CValue.conformAll, Bool.and_eq_true] at hc
      simp only [CValue.fitAll, Bool.and_eq_true] at hf
      simp only [CValue.comparableAll, Bool.and_eq_true] at he
      obtain ⟨w₁, h₁⟩ := equivalent_self v block room tc
        (start + alignUp offset tc.findCAlignment) (ht tc List.mem_cons_self) hc.1 hf.1 he.1
      obtain ⟨w₂, h₂⟩ := equivalentMembers_self vs block room start tcs
        (alignUp offset tc.findCAlignment + tc.gatherAllocInfo)
        (fun sub hs => ht sub (List.mem_cons_of_mem _ hs)) hc.2 hf.2 he.2
      rw [equivalentMembers]
      simp [h₁, h₂]

theorem equivalentElements_self : (vs : List (CValue α)) →
    ∀ (block : List Nat) (room : Nat → Nat) (tc : CTypeCode) (first index place : Nat),
    tc.wellFormed = true → CValue.conformEach tc vs = true → CValue.fitEach tc vs = true →
    CValue.comparableEach tc vs = true →
    ∃ w, allSame.equivalentElements block room tc first index place vs vs = some w
  | [] => by
    intro block room tc first index place _ _ _ _
    exact ⟨_, rfl⟩
  | v :: vs => by
    intro block room tc first index place ht hc hf he
    simp only [CValue.conformEach, Bool.and_eq_true] at hc
    simp only [CValue.fitEach, Bool.and_eq_true] at hf
    simp only [CValue.comparableEach, Bool.and_eq_true] at he
    obtain ⟨w₁, h₁⟩ := equivalent_self v block (room index) tc place ht hc.1 hf.1 he.1
    obtain ⟨w₂, h₂⟩ := equivalentElements_self vs block room tc first (index+1) w₁.stop ht hc.2
      hf.2 he.2
    rw [equivalentElements]
    simp [h₁, h₂]

end

mutual

/-- Where `ORBit_value_equivalent` returns TRUE it has met nothing that it never finds equal. -/
theorem comparable_of_equivalent {V : Verdicts α} : (v : CValue α) →
    ∀ ⦃v' : CValue α⦄ ⦃block : List Nat⦄ ⦃room : Nat⦄ ⦃tc : CTypeCode⦄ ⦃start : Nat⦄ ⦃w : Walk⦄,
    V.valueEquivalent block room tc start v v' = some w → v.comparable tc = true
  | .atom a => by
    intro v' block room tc start w h
    cases v' with
    | atom b =>
      rw [valueEquivalent] at h
      split at h
      · rw [Walker.leaf] at h
        split at h
        · rename_i ha
          exact (Bool.and_eq_true _ _ ▸ ha).2
        · cases h
      · cases h
    | _ => cases h
  | .any type value => by
    intros
    rfl
  | .record members => by
    intro v' block room tc start w h
    cases v' with
    | record members' =>
      rw [valueEquivalent] at h
      split at h
      · obtain ⟨u, hu, h⟩ := Option.bind_eq_some_iff.1 h
        exact comparableAll_of_equivalent members hu
      · cases h
    | _ => cases h
  | .union switch body => by
    intro v' block room tc start w h
    cases v' with
    | union switch' body' =>
      rw [valueEquivalent] at h
      split at h
      · split at h
        · obtain ⟨e, he, h⟩ := Option.bind_eq_some_iff.1 h
          split at h
          · obtain ⟨u, hu, h⟩ := Option.bind_eq_some_iff.1 h
            exact comparable_of_equivalent body hu
          · cases h
        · cases h
      · cases h
    | _ => cases h
  | .seq elements => by
    intro v' block room tc start w h
    cases v' with
    | seq elements' =>
      rw [valueEquivalent] at h
      split at h
      · split at h
        · obtain ⟨u, hu, h⟩ := Option.bind_eq_some_iff.1 h
          exact comparableEach_of_equivalent elements hu
        · obtain ⟨u, hu, h⟩ := Option.bind_eq_some_iff.1 h
          exact comparableEach_of_equivalent elements hu
        · cases h
      · cases h
    | _ => cases h

theorem comparableAll_of_equivalent {V : Verdicts α} : (vs : List (CValue α)) →
    ∀ ⦃vs' : List (CValue α)⦄ ⦃block : List Nat⦄ ⦃room start : Nat⦄ ⦃tcs : List CTypeCode⦄
      ⦃offset : Nat⦄ ⦃w : Walk⦄,
    V.equivalentMembers block room start tcs offset vs vs' = some w →
    CValue.comparableAll tcs vs = true
  | [] => by
    intro vs' block room start tcs offset w _
    cases tcs <;> rfl
  | v :: vs => by
    intro vs' block room start tcs offset w h
    cases tcs with
    | nil => rfl
    | cons tc tcs =>
      cases vs' with
      | nil => cases h
      | cons v' vs' =>
        rw [equivalentMembers] at h
        obtain ⟨w₁, h₁, h⟩ := Option.bind_eq_some_iff.1 h
        obtain ⟨w₂, h₂, _⟩ := Option.bind_eq_some_iff.1 h
        rw [CValue.comparableAll, comparable_of_equivalent v h₁,
          comparableAll_of_equivalent vs h₂]
        rfl

theorem comparableEach_of_equivalent {V : Verdicts α} : (vs : List (CValue α)) →
    ∀ ⦃vs' : List (CValue α)⦄ ⦃block : List Nat⦄ ⦃room : Nat → Nat⦄ ⦃tc : CTypeCode⦄
      ⦃first index place : Nat⦄ ⦃w : Walk⦄,
    V.equivalentElements block room tc first index place vs vs' = some w →
    CValue.comparableEach tc vs = true
  | [] => by
    intros
    rfl
  | v :: vs => by
    intro vs' block room tc first index place w h
    cases vs' with
    | nil => cases h
    | cons v' vs' =>
      rw [equivalentElements] at h
      obtain ⟨w₁, h₁, h⟩ := Option.bind_eq_some_iff.1 h
      obtain ⟨w₂, h₂, _⟩ := Option.bind_eq_some_iff.1 h
      rw [CValue.comparableEach, comparable_of_equivalent v h₁,
        comparableEach_of_equivalent vs h₂]
      rfl

end

end Verdicts

/-- The four functions called for a value at `start`, in a block that ends where the value
does: each returns, and each of their calls and elements is where it belongs. For
`ORBit_value_equivalent` this is asked only where it returns TRUE. -/
structure LayoutAgrees (tc : CTypeCode) (v : CValue α) (start : Nat) : Prop where
  marshal : ∃ w, Walker.marshalValue.walk [] (start + tc.gatherAllocInfo) tc start v = some w ∧
    w.Agrees tc start
  demarshal : ∃ w, Walker.demarshalValue.walk [] (start + tc.gatherAllocInfo) tc start v = some w ∧
    w.Agrees tc start
  copy : ∃ w, Walker.copyValueCore.walk [] (start + tc.gatherAllocInfo) tc start v = some w ∧
    w.Agrees tc start
  equivalent : ∀ (V : Verdicts α) (v' : CValue α) (w : Walk),
    V.valueEquivalent [] (start + tc.gatherAllocInfo) tc start v v' = some w → w.Agrees tc start

/-- A struct of a long and a sequence of strings. -/
def CTypeCode.mixed : CTypeCode :=
  .node ⟨.struct, 0, [], [], [], [], -1, 0, 0⟩
    [.basic .long, .node ⟨.sequence, 0, [], [], [], [], -1, 0, 0⟩ [.basic .string] none] none

/-- `union switch (octet) { case 1: double; case 2: octet [9]; case 3: short; }` -/
def CTypeCode.uneven : CTypeCode :=
  .node ⟨.union, 0, [], [], [], [1, 2, 3], -1, 0, 0⟩
    [.basic .double, .node ⟨.array, 9, [], [], [], [], -1, 0, 0⟩ [.basic .octet] none,
      .basic .short] (some (.basic .octet))

end ORBit2
