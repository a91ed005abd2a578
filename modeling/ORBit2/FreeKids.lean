import ORBit2.LayoutAgreement

/-! `ORBit_freekids_via_TypeCode_T` and `ORBit_free_T` on the values that
`ORBit_demarshal_value` and `ORBit_copy_value_core` lay out. Blocks begin at address zero of
their own, which stands for any multiple of eight. -/

set_option autoImplicit false

namespace ORBit2
open Words

variable {α : Type}

/-- The kinds whose memory holds a pointer that has to be given back. -/
def TCKind.holdsPointer : TCKind → Bool
  | .any | .typeCode | .objref | .principal | .wstring | .string | .sequence => true
  | _ => false

/-- A slot is where a pointer was written: a block and an address in it. -/
def Step.slot : Step → Option (List Nat × Nat)
  | .call block tc start _ _ =>
      if tc.skipAlias.kind.holdsPointer then some (block, start) else none
  | .element .. => none

def Walk.slots (w : Walk) : List (List Nat × Nat) := w.steps.filterMap Step.slot

/-- A call of `ORBit_freekids_via_TypeCode_T` and the address it returns. -/
structure FreeCall where
  tc : CTypeCode
  mem : Nat
  retval : Nat

/-- What a call does: the address it returns, the calls made and the slots whose pointers
are released, in order. -/
structure Freeing where
  retval : Nat
  calls : List FreeCall
  released : List (List Nat × Nat)

mutual

/-- `ORBit_freekids_via_TypeCode_T`; what `ORBit_free_T` does with the block of a pointer
belongs to it. The contents of the parts are taken from the tree, which is what the code
reads as long as it looks for them where they are. `none` is a `g_error` or a value of
another type. -/
def freekids (block : List Nat) (tc : CTypeCode) (mem : Nat) : CValue α → Option Freeing
  | .atom _ =>
      if tc.isAtom then
        if tc.skipAlias.kind.holdsPointer then
          let retval := mem + tc.skipAlias.kind.sizeof
          some ⟨retval, [⟨tc, mem, retval⟩], [(block, mem)]⟩
        else
          let retval := alignUp mem tc.skipAlias.findCAlignment + tc.skipAlias.gatherAllocInfo
          some ⟨retval, [⟨tc, mem, retval⟩], []⟩
      else none
  | .any type value =>
      if tc.skipAlias.kind = .any then do
        let f ← freekids (mem :: block) type 0 value
        let retval := mem + TCKind.any.sizeof
        some ⟨retval, ⟨tc, mem, retval⟩ :: f.calls, (block, mem) :: f.released⟩
      else none
  | .record members =>
      if tc.skipAlias.kind = .struct ∨ tc.skipAlias.kind = .except then do
        let f ← freeMembers block tc.skipAlias.subtypes
          (alignUp mem tc.skipAlias.findCAlignment) members
        let retval := alignUp f.retval tc.skipAlias.findCAlignment
        some ⟨retval, ⟨tc, mem, retval⟩ :: f.calls, f.released⟩
      else none
  | .union switch body =>
      match tc.skipAlias.kind, tc.skipAlias.discriminator with
      | .union, some discriminator =>
          if discriminator.readsSwitch then do
            let cmem := alignUp mem
              (max discriminator.findCAlignment tc.skipAlias.findCAlignment)
            let cmem := cmem + discriminator.gatherAllocInfo
            let body_mem := alignUp cmem (CTypeCode.widestAlignment tc.skipAlias.subtypes)
            let f ← freekids block (tc.skipAlias.arm switch) body_mem body
            let retval := body_mem + CTypeCode.gatherWidest tc.skipAlias.subtypes
            some ⟨retval, ⟨tc, mem, retval⟩ :: f.calls, f.released⟩
          else none
      | _, _ => none
  | .seq elements =>
      match tc.skipAlias.kind with
      | .sequence => do
          -- the prefix of the buffer keeps the low 30 bits of the count
          let f ← freeElements (mem :: block) tc.skipAlias.element (elements.length % 2^30) 0
            elements
          let retval := mem + TCKind.sequence.sizeof
          some ⟨retval, ⟨tc, mem, retval⟩ :: f.calls, (block, mem) :: f.released⟩
      | .array => do
          let f ← freeElements block tc.skipAlias.element tc.skipAlias.info.length mem elements
          some ⟨f.retval, ⟨tc, mem, f.retval⟩ :: f.calls, f.released⟩
      | _ => none

def freeMembers (block : List Nat) : List CTypeCode → Nat → List (CValue α) → Option Freeing
  | [], mem, [] => some ⟨mem, [], []⟩
  | tc :: tcs, mem, v :: vs => do
      let f ← freekids block tc (alignUp mem tc.findCAlignment) v
      let fs ← freeMembers block tcs f.retval vs
      some ⟨fs.retval, f.calls ++ fs.calls, f.released ++ fs.released⟩
  | _, _, _ => none

/-- The loop over `how` elements. -/
def freeElements (block : List Nat) (tc : CTypeCode) :
    (how mem : Nat) → List (CValue α) → Option Freeing
  | 0, mem, _ => some ⟨mem, [], []⟩
  | how+1, mem, v :: vs => do
      let f ← freekids block tc mem v
      let fs ← freeElements block tc how f.retval vs
      some ⟨fs.retval, f.calls ++ fs.calls, f.released ++ fs.released⟩
  | _+1, _, [] => none

end

mutual

/-- The number of pointers in a value and in the blocks behind it. -/
def CValue.pointers (tc : CTypeCode) : CValue α → Nat
  | .atom _ => if tc.skipAlias.kind.holdsPointer then 1 else 0
  | .any type value => 1 + CValue.pointers type value
  | .record members => CValue.pointersAll tc.skipAlias.subtypes members
  | .union switch body => CValue.pointers (tc.skipAlias.arm switch) body
  | .seq elements =>
      (if tc.skipAlias.kind = .sequence then 1 else 0) +
        CValue.pointersEach tc.skipAlias.element elements

def CValue.pointersAll : List CTypeCode → List (CValue α) → Nat
  | tc :: tcs, v :: vs => CValue.pointers tc v + CValue.pointersAll tcs vs
  | _, _ => 0

def CValue.pointersEach (tc : CTypeCode) : List (CValue α) → Nat
  | [] => 0
  | v :: vs => CValue.pointers tc v + CValue.pointersEach tc vs

end

/-- The widest arm of a union reaches the end of it. -/
def CTypeCode.unionFilled (tc : CTypeCode) : Bool :=
  tc.bodyOffset + CTypeCode.gatherWidest tc.subtypes ==
    alignUp (alignToRise tc.subtypes (gatherDiscriminator tc.discriminator) +
      CTypeCode.gatherWidest tc.subtypes) tc.findCAlignment

mutual

/-- Every union that is met is filled, and no sequence keeps pointers in elements that the
30-bit count leaves out. -/
def CValue.freeable (tc : CTypeCode) : CValue α → Bool
  | .atom _ => true
  | .any type value => CValue.freeable type value
  | .record members => CValue.freeableAll tc.skipAlias.subtypes members
  | .union switch body =>
      tc.skipAlias.unionFilled && CValue.freeable (tc.skipAlias.arm switch) body
  | .seq elements =>
      if tc.skipAlias.kind = .sequence then
        CValue.freeableEach tc.skipAlias.element (elements.length % 2^30) elements
      else CValue.freeableEach tc.skipAlias.element elements.length elements

def CValue.freeableAll : List CTypeCode → List (CValue α) → Bool
  | tc :: tcs, v :: vs => CValue.freeable tc v && CValue.freeableAll tcs vs
  | _, _ => true

/-- The first `how` elements are freeable and the others hold no pointers. -/
def CValue.freeableEach (tc : CTypeCode) : Nat → List (CValue α) → Bool
  | _, [] => true
  | 0, v :: vs => v.pointers tc == 0 && CValue.freeableEach tc 0 vs
  | how+1, v :: vs => CValue.freeable tc v && CValue.freeableEach tc how vs

end

theorem CValue.freeableEach_zero (tc : CTypeCode) (vs : List (CValue α)) :
    CValue.freeableEach tc 0 vs = true ↔ CValue.pointersEach tc vs = 0 := by
  induction vs with
  | nil => simp [CValue.freeableEach, CValue.pointersEach]
  | cons v vs ih => simp [CValue.freeableEach, CValue.pointersEach, ih]

namespace CTypeCode

theorem unionFilled_iff {tc : CTypeCode} (hk : tc.kind = .union) :
    tc.unionFilled = true ↔
      tc.bodyOffset + gatherWidest tc.subtypes = tc.gatherAllocInfo := by
  rw [unionFilled, beq_iff_eq, gatherAllocInfo_union hk]

/-- A filled union fits. -/
theorem unionFits_of_filled {tc : CTypeCode} (hk : tc.kind = .union)
    (h : tc.unionFilled = true) : tc.unionFits = true := by
  rw [unionFilled_iff hk] at h
  have hg : tc.findCAlignment ∣ tc.gatherAllocInfo := findCAlignment_dvd_gather tc
  rw [← h] at hg
  have hw := (Nat.dvd_add_right (dvd_alignUp _ _)).1 hg
  rw [unionFits_iff hk, alignUp_eq_of_dvd tc.findCAlignment_pos hw, h]

theorem readsSwitch_size {tc : CTypeCode} (h : tc.readsSwitch = true) :
    tc.skipAlias.kind.holdsPointer = false ∧ tc.findCAlignment = tc.gatherAllocInfo ∧
      (tc.gatherAllocInfo = 1 ∨ tc.gatherAllocInfo = 2 ∨ tc.gatherAllocInfo = 4) := by
  rw [gatherAllocInfo_isAtom (readsSwitch_isAtom h).1, ← findCAlignment_skipAlias]
  unfold readsSwitch at h
  generalize tc.skipAlias = t at h ⊢
  cases t with
  | node info subtypes discriminator =>
    have hi : (node info subtypes discriminator).kind = info.kind := rfl
    rw [hi] at h ⊢
    rw [findCAlignment]
    cases hk : info.kind <;> simp_all [TCKind.sizeof, TCKind.alignof, TCKind.holdsPointer]

/-- Aligning to the arms alone is enough behind a discriminator. -/
theorem bodyOffset_eq {tc d : CTypeCode} {mem : Nat} (hk : tc.kind = .union)
    (hd : tc.discriminator = some d) (hs : d.readsSwitch = true) (hm : tc.findCAlignment ∣ mem) :
    alignUp (alignUp mem (max d.findCAlignment tc.findCAlignment) + d.gatherAllocInfo)
      (widestAlignment tc.subtypes) = mem + tc.bodyOffset := by
  have ha := findCAlignment_union hk
  simp only [hd, discriminatorAlignment] at ha
  have hw := (dvd_max_of_dvd_eight d.findCAlignment_dvd_eight
    (widestAlignment_dvd_eight tc.subtypes)).2.1
  rw [← ha] at hw
  have hmax : max d.findCAlignment tc.findCAlignment = tc.findCAlignment := by omega
  rw [hmax, alignUp_eq_of_dvd tc.findCAlignment_pos hm, Nat.add_comm mem,
    alignUp_add_of_dvd (widestAlignment_pos _) (hw.trans hm), Nat.add_comm mem, bodyOffset, hd,
    gatherDiscriminator, ha]
  obtain ⟨_, hde, hsize⟩ := readsSwitch_size hs
  rw [hde]
  have hdiv : widestAlignment tc.subtypes ∈ Nat.divisors 8 :=
    Nat.mem_divisors.2 ⟨widestAlignment_dvd_eight _, by omega⟩
  rw [show Nat.divisors 8 = {1, 2, 4, 8} by decide] at hdiv
  simp only [Finset.mem_insert, Finset.mem_singleton] at hdiv
  congr 1
  generalize widestAlignment tc.subtypes = b at hdiv
  generalize d.gatherAllocInfo = a at hsize
  rcases hsize with rfl | rfl | rfl <;> rcases hdiv with rfl | rfl | rfl | rfl <;> decide

theorem arm_aligned (tc : CTypeCode) (switch : Int) :
    (tc.arm switch).findCAlignment ∣ widestAlignment tc.subtypes := by
  rcases tc.arm_mem switch with h | h
  · exact findCAlignment_dvd_widest h
  · rw [h]
    exact Nat.one_dvd _

end CTypeCode

/-- A walk that lays values out as `ORBit_demarshal_value` and `ORBit_copy_value_core` do. -/
structure Walker.LaysOut (W : Walker) : Prop where
  any : W.anySize = 24
  union : ∀ tc : CTypeCode, tc.kind = .union → tc.unionFits = true →
    W.unionSize tc = tc.gatherAllocInfo

theorem Walker.demarshalValue_laysOut : demarshalValue.LaysOut :=
  ⟨rfl, demarshalValue_lays.union⟩

theorem Walker.copyValueCore_laysOut : copyValueCore.LaysOut := ⟨rfl, copyValueCore_lays.union⟩

def FreeCall.Returns (c : FreeCall) : Prop := c.retval = c.mem + c.tc.gatherAllocInfo

/-- The slots a walk has written, one by one. -/
theorem slots_cons (stop : Nat) (s : Step) (steps : List Step) :
    (Walk.mk stop (s :: steps)).slots = s.slot.toList ++ steps.filterMap Step.slot := by
  rw [Walk.slots, List.filterMap_cons]
  cases s.slot <;> rfl

theorem leaf_slots {W : Walker} {block : List Nat} {room start : Nat} {tc : CTypeCode} {w : Walk}
    (h : W.leaf block room tc start = some w) :
    tc.isAtom = true ∧ w.stop = start + tc.gatherAllocInfo ∧
      w.slots = if tc.skipAlias.kind.holdsPointer then [(block, start)] else [] := by
  unfold Walker.leaf at h
  split at h
  · rename_i ha
    have hat := (Bool.and_eq_true _ _ ▸ ha).1
    cases h
    refine ⟨hat, by rw [CTypeCode.gatherAllocInfo_isAtom hat], ?_⟩
    rw [slots_cons, Step.slot]
    split <;> rfl
  · cases h

mutual

theorem slots_length {W : Walker} : (v : CValue α) →
    ∀ ⦃block : List Nat⦄ ⦃room : Nat⦄ ⦃tc : CTypeCode⦄ ⦃start : Nat⦄ ⦃w : Walk⦄,
    W.walk block room tc start v = some w → w.slots.length = v.pointers tc
  | .atom _ => by
    intro block room tc start w h
    obtain ⟨_, _, hs⟩ := leaf_slots h
    rw [hs, CValue.pointers]
    split <;> rfl
  | .any type value => by
    intro block room tc start w h
    rw [Walker.walk] at h
    split at h
    · rename_i hk
      obtain ⟨u, hu, h⟩ := Option.bind_eq_some_iff.1 h
      cases h
      have hi := slots_length value hu
      rw [Walk.slots] at hi
      rw [slots_cons, List.length_append, hi, Step.slot, hk, CValue.pointers]
      rfl
    · cases h
  | .record members => by
    intro block room tc start w h
    rw [Walker.walk] at h
    split at h
    · rename_i hk
      obtain ⟨u, hu, h⟩ := Option.bind_eq_some_iff.1 h
      cases h
      have hi := slotsAll_length members hu
      rw [Walk.slots] at hi
      rw [slots_cons, List.length_append, hi, Step.slot, CValue.pointers]
      rcases hk with hk | hk <;> simp [hk, TCKind.holdsPointer]
    · cases h
  | .union switch body => by
    intro block room tc start w h
    rw [Walker.walk] at h
    split at h
    · rename_i d hk hd
      obtain ⟨e, he, h⟩ := Option.bind_eq_some_iff.1 h
      split at h
      · rename_i hs
        obtain ⟨u, hu, h⟩ := Option.bind_eq_some_iff.1 h
        cases h
        have hi := slots_length body hu
        obtain ⟨_, _, hds⟩ := leaf_slots he
        rw [(CTypeCode.readsSwitch_size hs).1] at hds
        rw [Walk.slots] at hi hds
        rw [slots_cons, List.length_append, List.filterMap_append, List.length_append, hi, hds,
          Step.slot, hk, CValue.pointers]
        simp [TCKind.holdsPointer]
      · cases h
    · cases h
  | .seq elements => by
    intro block room tc start w h
    rw [Walker.walk] at h
    split at h
    · split at h
      · rename_i hk
        obtain ⟨u, hu, h⟩ := Option.bind_eq_some_iff.1 h
        cases h
        have hi := slotsEach_length elements hu
        rw [Walk.slots] at hi
        rw [slots_cons, List.length_append, hi, Step.slot, hk, CValue.pointers, if_pos hk]
        rfl
      · rename_i hk
        obtain ⟨u, hu, h⟩ := Option.bind_eq_some_iff.1 h
        cases h
        have hi := slotsEach_length elements hu
        rw [Walk.slots] at hi
        rw [slots_cons, List.length_append, hi, Step.slot, CValue.pointers]
        simp [hk, TCKind.holdsPointer]
      · cases h
    · cases h

theorem slotsAll_length {W : Walker} : (vs : List (CValue α)) →
    ∀ ⦃block : List Nat⦄ ⦃room start : Nat⦄ ⦃tcs : List CTypeCode⦄ ⦃offset : Nat⦄ ⦃w : Walk⦄,
    W.walkMembers block room start tcs offset vs = some w →
    w.slots.length = CValue.pointersAll tcs vs
  | [] => by
    intro block room start tcs offset w h
    cases tcs with
    | nil =>
      cases h
      rfl
    | cons tc tcs => cases h
  | v :: vs => by
    intro block room start tcs offset w h
    cases tcs with
    | nil => cases h
    | cons tc tcs =>
      rw [Walker.walkMembers] at h
      obtain ⟨w₁, h₁, h⟩ := Option.bind_eq_some_iff.1 h
      obtain ⟨w₂, h₂, h⟩ := Option.bind_eq_some_iff.1 h
      cases h
      have hv := slots_length v h₁
      have hvs := slotsAll_length vs h₂
      rw [Walk.slots] at hv hvs
      rw [Walk.slots, List.filterMap_append, List.length_append, hv, hvs, CValue.pointersAll]

theorem slotsEach_length {W : Walker} : (vs : List (CValue α)) →
    ∀ ⦃block : List Nat⦄ ⦃room : Nat → Nat⦄ ⦃tc : CTypeCode⦄ ⦃first index place : Nat⦄
      ⦃w : Walk⦄,
    W.walkElements block room tc first index place vs = some w →
    w.slots.length = CValue.pointersEach tc vs
  | [] => by
    intro block room tc first index place w h
    cases h
    rfl
  | v :: vs => by
    intro block room tc first index place w h
    rw [Walker.walkElements] at h
    obtain ⟨w₁, h₁, h⟩ := Option.bind_eq_some_iff.1 h
    obtain ⟨w₂, h₂, h⟩ := Option.bind_eq_some_iff.1 h
    cases h
    have hv := slots_length v h₁
    have hvs := slotsEach_length vs h₂
    rw [Walk.slots] at hv hvs
    rw [slots_cons, List.filterMap_append, List.length_append, List.length_append, hv, hvs,
      CValue.pointersEach]
    exact Nat.zero_add _

end

/-- A call for a value that a walk has written at `mem`: it returns where the walk has
stopped, so does every call it makes, and it releases the slots of the walk. -/
structure Freeing.Follows (f : Freeing) (w : Walk) : Prop where
  retval : f.retval = w.stop
  calls : ∀ c ∈ f.calls, c.Returns
  released : f.released = w.slots

mutual

theorem freekids_follows {W : Walker} (hW : W.LaysOut) : (v : CValue α) →
    ∀ ⦃block : List Nat⦄ ⦃room : Nat⦄ ⦃tc : CTypeCode⦄ ⦃mem : Nat⦄ ⦃w : Walk⦄,
    W.walk block room tc mem v = some w → v.conforms tc = true → v.freeable tc = true →
    tc.findCAlignment ∣ mem →
    w.stop = mem + tc.gatherAllocInfo ∧ ∃ f, freekids block tc mem v = some f ∧ f.Follows w
  | .atom _ => by
    intro block room tc mem w h _ _ hm
    obtain ⟨ha, hstop, hs⟩ := leaf_slots h
    refine ⟨hstop, ?_⟩
    rw [freekids, if_pos ha]
    split at hs
    · rename_i hp
      rw [if_pos hp]
      have hg := CTypeCode.gatherAllocInfo_isAtom ha
      refine ⟨_, rfl, ⟨by rw [hstop, hg], fun c hc => ?_, hs.symm⟩⟩
      rw [List.mem_singleton] at hc
      subst hc
      rw [FreeCall.Returns, hg]
    · rename_i hp
      rw [if_neg hp]
      have hr : alignUp mem tc.skipAlias.findCAlignment + tc.skipAlias.gatherAllocInfo =
          mem + tc.gatherAllocInfo := by
        rw [CTypeCode.findCAlignment_skipAlias, CTypeCode.gatherAllocInfo_skipAlias,
          alignUp_eq_of_dvd tc.findCAlignment_pos hm]
      refine ⟨_, rfl, ⟨by rw [hstop, hr], fun c hc => ?_, hs.symm⟩⟩
      rw [List.mem_singleton] at hc
      subst hc
      exact hr
  | .any type value => by
    intro block room tc mem w h hc hf hm
    simp only [CValue.conforms, Bool.and_eq_true, decide_eq_true_eq] at hc
    have hk := hc.1.1
    have hg := CTypeCode.gatherAllocInfo_leaf (Or.inr hk)
    rw [CTypeCode.gatherAllocInfo_skipAlias] at hg
    rw [Walker.walk, if_pos hk] at h
    obtain ⟨u, hu, h⟩ := Option.bind_eq_some_iff.1 h
    cases h
    obtain ⟨_, f, hfk, hfo⟩ := freekids_follows hW value hu hc.2 hf (Nat.dvd_zero _)
    rw [freekids, if_pos hk, hfk]
    refine ⟨by rw [hW.any, hg], _, rfl, ⟨by rw [hW.any]; rfl, fun c hcm => ?_, ?_⟩⟩
    · rcases List.mem_cons.1 hcm with rfl | hcm
      · rw [FreeCall.Returns, hg]
        rfl
      · exact hfo.calls c hcm
    · rw [slots_cons, Step.slot, hk, hfo.released]
      rfl
  | .record members => by
    intro block room tc mem w h hc hf hm
    simp only [CValue.conforms, Bool.and_eq_true, decide_eq_true_eq] at hc
    have hk := hc.1
    have hg := CTypeCode.gatherAllocInfo_record hk
    rw [CTypeCode.gatherAllocInfo_skipAlias] at hg
    rw [Walker.walk, if_pos hk] at h
    obtain ⟨u, hu, h⟩ := Option.bind_eq_some_iff.1 h
    cases h
    rw [← CTypeCode.findCAlignment_skipAlias] at hm
    have hal := CTypeCode.findCAlignment_record hk
    obtain ⟨hstop, f, hfk, hret, hcalls, hrel⟩ := freeMembers_follows hW members hu hc.2 hf
      (fun sub hs => by
        have hd := CTypeCode.findCAlignment_dvd_widest hs
        rw [← hal] at hd
        exact hd.trans hm)
    have hret' : alignUp f.retval tc.skipAlias.findCAlignment = mem + tc.gatherAllocInfo := by
      rw [hret, hstop, hg, Nat.add_comm mem, alignUp_add_of_dvd tc.skipAlias.findCAlignment_pos hm,
        Nat.add_comm mem]
    rw [freekids, if_pos hk, alignUp_eq_of_dvd tc.skipAlias.findCAlignment_pos hm]
    rw [Nat.add_zero] at hfk
    rw [hfk]
    refine ⟨by rw [hstop, hg], _, rfl, ⟨?_, fun c hcm => ?_, ?_⟩⟩
    · rw [hstop, ← hg]
      exact hret'
    · rcases List.mem_cons.1 hcm with rfl | hcm
      · exact hret'
      · exact hcalls c hcm
    · rw [slots_cons, Step.slot, hrel]
      rcases hk with hk | hk <;> rw [hk] <;> rfl
  | .union switch body => by
    intro block room tc mem w h hc hf hm
    simp only [CValue.conforms, Bool.and_eq_true, decide_eq_true_eq] at hc
    simp only [CValue.freeable, Bool.and_eq_true] at hf
    have hk := hc.1
    cases hd : tc.skipAlias.discriminator with
    | none =>
      rw [Walker.walk, hk] at h
      simp [hd] at h
    | some d =>
      rw [Walker.walk] at h
      simp only [hk, hd] at h
      obtain ⟨e, he, h⟩ := Option.bind_eq_some_iff.1 h
      split at h
      · rename_i hs
        obtain ⟨u, hu, h⟩ := Option.bind_eq_some_iff.1 h
        cases h
        rw [← CTypeCode.findCAlignment_skipAlias] at hm
        have hb := CTypeCode.bodyOffset_eq hk hd hs hm
        have ha : (tc.skipAlias.arm switch).findCAlignment ∣ mem + tc.skipAlias.bodyOffset := by
          rw [← hb]
          exact (CTypeCode.arm_aligned _ _).trans (dvd_alignUp _ _)
        obtain ⟨_, f, hfk, hfo⟩ := freekids_follows hW body hu hc.2 hf.2 ha
        have hw := hW.union _ hk (CTypeCode.unionFits_of_filled hk hf.1)
        have hfull := (CTypeCode.unionFilled_iff hk).1 hf.1
        rw [CTypeCode.gatherAllocInfo_skipAlias] at hw hfull
        have hret : mem + tc.skipAlias.bodyOffset +
            CTypeCode.gatherWidest tc.skipAlias.subtypes = mem + tc.gatherAllocInfo := by omega
        rw [freekids]
        simp only [hk, hd, hs, if_true, hb, hfk, Option.bind_eq_bind, Option.bind_some]
        refine ⟨by rw [hw], _, rfl, ⟨?_, fun c hcm => ?_, ?_⟩⟩
        · rw [hw]
          exact hret
        · rcases List.mem_cons.1 hcm with rfl | hcm
          · exact hret
          · exact hfo.calls c hcm
        · have hds := (leaf_slots he).2.2
          rw [(CTypeCode.readsSwitch_size hs).1, Walk.slots] at hds
          rw [slots_cons, Step.slot, hk, List.filterMap_append, hds, hfo.released]
          rfl
      · cases h
  | .seq elements => by
    intro block room tc mem w h hc hf hm
    simp only [CValue.conforms, Bool.and_eq_true, Bool.or_eq_true, decide_eq_true_eq] at hc
    rw [Walker.walk] at h
    split at h
    · rcases hc.1 with ⟨hk, hlt⟩ | ⟨hk, hlen⟩
      · simp only [hk] at h
        obtain ⟨u, hu, h⟩ := Option.bind_eq_some_iff.1 h
        cases h
        have hg := CTypeCode.gatherAllocInfo_leaf (Or.inl hk)
        rw [CTypeCode.gatherAllocInfo_skipAlias] at hg
        rw [CValue.freeable, if_pos hk] at hf
        obtain ⟨f, hfk, hcalls, hrel, _⟩ := freeElements_follows hW elements
          (elements.length % 2^30) (Nat.mod_le _ _) hu hc.2 hf (Nat.dvd_zero _)
        rw [freekids]
        simp only [hk, hfk, Option.bind_eq_bind, Option.bind_some]
        refine ⟨by rw [hg]; rfl, _, rfl, ⟨rfl, fun c hcm => ?_, ?_⟩⟩
        · rcases List.mem_cons.1 hcm with rfl | hcm
          · rw [FreeCall.Returns, hg]
            rfl
          · exact hcalls c hcm
        · rw [slots_cons, Step.slot, hk, hrel]
          rfl
      · simp only [hk] at h
        obtain ⟨u, hu, h⟩ := Option.bind_eq_some_iff.1 h
        cases h
        have hg := CTypeCode.gatherAllocInfo_array_element hk
        rw [CTypeCode.gatherAllocInfo_skipAlias] at hg
        rw [CValue.freeable, if_neg (by rw [hk]; decide), hlen] at hf
        have ha : tc.skipAlias.element.findCAlignment ∣ mem := by
          have hae := CTypeCode.findCAlignment_array hk
          rw [CTypeCode.findCAlignment_skipAlias] at hae
          rw [CTypeCode.element, CTypeCode.null, ← hae]
          exact hm
        obtain ⟨f, hfk, hcalls, hrel, hall⟩ := freeElements_follows hW elements
          tc.skipAlias.info.length (le_of_eq hlen.symm) hu hc.2 hf ha
        obtain ⟨hstop, hf'⟩ := hall hlen.symm
        have hu' : u.stop = mem + tc.gatherAllocInfo := by
          rw [hstop, hg, hlen, Nat.mul_comm]
        rw [freekids]
        simp only [hk, hfk, Option.bind_eq_bind, Option.bind_some]
        refine ⟨hu', _, rfl, ⟨hf', fun c hcm => ?_, ?_⟩⟩
        · rcases List.mem_cons.1 hcm with rfl | hcm
          · rw [FreeCall.Returns, hf', hu']
          · exact hcalls c hcm
        · rw [slots_cons, Step.slot, hk, hrel]
          rfl
    · cases h

theorem freeMembers_follows {W : Walker} (hW : W.LaysOut) : (vs : List (CValue α)) →
    ∀ ⦃block : List Nat⦄ ⦃room start : Nat⦄ ⦃tcs : List CTypeCode⦄ ⦃offset : Nat⦄ ⦃w : Walk⦄,
    W.walkMembers block room start tcs offset vs = some w → CValue.conformAll tcs vs = true →
    CValue.freeableAll tcs vs = true → (∀ tc ∈ tcs, tc.findCAlignment ∣ start) →
    w.stop = CTypeCode.gatherMembers offset tcs ∧
      ∃ f, freeMembers block tcs (start + offset) vs = some f ∧ f.retval = start + w.stop ∧
        (∀ c ∈ f.calls, c.Returns) ∧ f.released = w.slots
  | [] => by
    intro block room start tcs offset w h hc _ _
    cases tcs with
    | nil =>
      cases h
      exact ⟨rfl, _, rfl, rfl, by simp, rfl⟩
    | cons tc tcs => cases h
  | v :: vs => by
    intro block room start tcs offset w h hc hf hm
    cases tcs with
    | nil => cases h
    | cons tc tcs =>
      simp only [CValue.conformAll, Bool.and_eq_true] at hc
      simp only [CValue.freeableAll, Bool.and_eq_true] at hf
      rw [Walker.walkMembers] at h
      obtain ⟨w₁, h₁, h⟩ := Option.bind_eq_some_iff.1 h
      obtain ⟨w₂, h₂, h⟩ := Option.bind_eq_some_iff.1 h
      cases h
      have hs := hm tc List.mem_cons_self
      have hal : alignUp (start + offset) tc.findCAlignment =
          start + alignUp offset tc.findCAlignment := by
        rw [Nat.add_comm, alignUp_add_of_dvd tc.findCAlignment_pos hs, Nat.add_comm]
      obtain ⟨hstop₁, f₁, hf₁, hfo⟩ := freekids_follows hW v h₁ hc.1 hf.1
        (Nat.dvd_add hs (dvd_alignUp _ _))
      obtain ⟨hstop₂, f₂, hf₂, hret, hcalls, hrel⟩ := freeMembers_follows hW vs h₂ hc.2 hf.2
        (fun sub hsub => hm sub (List.mem_cons_of_mem _ hsub))
      have hnext : f₁.retval =
          start + (alignUp offset tc.findCAlignment + tc.gatherAllocInfo) := by
        rw [hfo.retval, hstop₁, Nat.add_assoc]
      rw [freeMembers, hal, hf₁]
      simp only [Option.bind_eq_bind, Option.bind_some]
      rw [hnext, hf₂]
      refine ⟨hstop₂, _, rfl, hret, fun c hcm => ?_, ?_⟩
      · rcases List.mem_append.1 hcm with hcm | hcm
        · exact hfo.calls c hcm
        · exact hcalls c hcm
      · rw [hfo.released, hrel, Walk.slots, Walk.slots, Walk.slots, List.filterMap_append]

theorem freeElements_follows {W : Walker} (hW : W.LaysOut) : (vs : List (CValue α)) →
    ∀ ⦃block : List Nat⦄ ⦃room : Nat → Nat⦄ ⦃tc : CTypeCode⦄ ⦃first index place : Nat⦄
      ⦃w : Walk⦄ (how : Nat), how ≤ vs.length →
    W.walkElements block room tc first index place vs = some w →
    CValue.conformEach tc vs = true → CValue.freeableEach tc how vs = true →
    tc.findCAlignment ∣ place →
    ∃ f, freeElements block tc how place vs = some f ∧ (∀ c ∈ f.calls, c.Returns) ∧
      f.released = w.slots ∧
      (how = vs.length → w.stop = place + vs.length * tc.gatherAllocInfo ∧ f.retval = w.stop)
  | [] => by
    intro block room tc first index place w how hle h _ _ _
    cases Nat.le_zero.1 hle
    cases h
    exact ⟨_, rfl, by simp, rfl, fun _ => ⟨by simp, rfl⟩⟩
  | v :: vs => by
    intro block room tc first index place w how hle h hc hf hm
    cases how with
    | zero =>
      -- nothing is stored in what is left
      have hz := (CValue.freeableEach_zero tc (v :: vs)).1 hf
      have hl := slotsEach_length (v :: vs) h
      rw [hz] at hl
      exact ⟨_, rfl, by simp, (List.eq_nil_of_length_eq_zero hl).symm, by simp⟩
    | succ how =>
      simp only [CValue.conformEach, Bool.and_eq_true] at hc
      simp only [CValue.freeableEach, Bool.and_eq_true] at hf
      rw [Walker.walkElements] at h
      obtain ⟨w₁, h₁, h⟩ := Option.bind_eq_some_iff.1 h
      obtain ⟨w₂, h₂, h⟩ := Option.bind_eq_some_iff.1 h
      cases h
      obtain ⟨hstop₁, f₁, hf₁, hfo⟩ := freekids_follows hW v h₁ hc.1 hf.1 hm
      have hm' : tc.findCAlignment ∣ w₁.stop := by
        rw [hstop₁]
        exact Nat.dvd_add hm tc.findCAlignment_dvd_gather
      obtain ⟨f₂, hf₂, hcalls, hrel, hall⟩ := freeElements_follows hW vs how
        (Nat.le_of_succ_le_succ hle) h₂ hc.2 hf.2 hm'
      rw [freeElements, hf₁]
      simp only [Option.bind_eq_bind, Option.bind_some]
      rw [hfo.retval, hf₂]
      refine ⟨_, rfl, fun c hcm => ?_, ?_, fun hlen => ?_⟩
      · rcases List.mem_append.1 hcm with hcm | hcm
        · exact hfo.calls c hcm
        · exact hcalls c hcm
      · rw [slots_cons, Step.slot, List.filterMap_append, hfo.released, hrel]
        rfl
      · obtain ⟨hstop₂, hret⟩ := hall (Nat.succ.inj hlen)
        refine ⟨?_, hret⟩
        rw [hstop₂, hstop₁, List.length_cons, Nat.succ_mul]
        omega

end

/-- Every call is among its own calls. -/
theorem freekids_call_mem {block : List Nat} {tc : CTypeCode} {mem : Nat} {v : CValue α}
    {f : Freeing} (h : freekids block tc mem v = some f) : ⟨tc, mem, f.retval⟩ ∈ f.calls := by
  cases v with
  | atom content =>
    rw [freekids] at h
    split at h
    · split at h <;> cases h <;> simp
    · cases h
  | any type value =>
    rw [freekids] at h
    split at h
    · obtain ⟨g, _, h⟩ := Option.bind_eq_some_iff.1 h
      cases h
      simp
    · cases h
  | record members =>
    rw [freekids] at h
    split at h
    · obtain ⟨g, _, h⟩ := Option.bind_eq_some_iff.1 h
      cases h
      simp
    · cases h
  | union switch body =>
    rw [freekids] at h
    split at h
    · split at h
      · obtain ⟨g, _, h⟩ := Option.bind_eq_some_iff.1 h
        cases h
        simp
      · cases h
    · cases h
  | seq elements =>
    rw [freekids] at h
    split at h
    · obtain ⟨g, _, h⟩ := Option.bind_eq_some_iff.1 h
      cases h
      simp
    · obtain ⟨g, _, h⟩ := Option.bind_eq_some_iff.1 h
      cases h
      simp
    · cases h

mutual

/-- Where every call returns the right address the value is freeable, but for the pointers
that are never released. -/
theorem freeable_of_returns : (v : CValue α) →
    ∀ ⦃block : List Nat⦄ ⦃tc : CTypeCode⦄ ⦃mem : Nat⦄ ⦃f : Freeing⦄,
    freekids block tc mem v = some f → (∀ c ∈ f.calls, c.Returns) → v.conforms tc = true →
    tc.findCAlignment ∣ mem →
    f.released.length ≤ v.pointers tc ∧
      (v.pointers tc ≤ f.released.length → v.freeable tc = true)
  | .atom _ => by
    intro block tc mem f h _ _ _
    rw [freekids] at h
    rw [CValue.pointers]
    split at h
    · split at h
      · rename_i hp
        cases h
        exact ⟨by rw [if_pos hp]; exact Nat.le_refl _, fun _ => rfl⟩
      · cases h
        exact ⟨Nat.zero_le _, fun _ => rfl⟩
    · cases h
  | .any type value => by
    intro block tc mem f h hr hc _
    simp only [CValue.conforms, Bool.and_eq_true, decide_eq_true_eq] at hc
    rw [freekids, if_pos hc.1.1] at h
    obtain ⟨g, hg, h⟩ := Option.bind_eq_some_iff.1 h
    cases h
    obtain ⟨hle, hge⟩ := freeable_of_returns value hg
      (fun c hcm => hr c (List.mem_cons_of_mem _ hcm)) hc.2 (Nat.dvd_zero _)
    rw [CValue.pointers, CValue.freeable, List.length_cons]
    exact ⟨by omega, fun hp => hge (by omega)⟩
  | .record members => by
    intro block tc mem f h hr hc hm
    simp only [CValue.conforms, Bool.and_eq_true, decide_eq_true_eq] at hc
    rw [freekids, if_pos hc.1] at h
    obtain ⟨g, hg, h⟩ := Option.bind_eq_some_iff.1 h
    cases h
    have hi := freeableAll_of_returns members hg
      (fun c hcm => hr c (List.mem_cons_of_mem _ hcm)) hc.2
    exact hi
  | .union switch body => by
    intro block tc mem f h hr hc hm
    simp only [CValue.conforms, Bool.and_eq_true, decide_eq_true_eq] at hc
    rw [freekids] at h
    split at h
    · rename_i d hk hd
      split at h
      · rename_i hs
        obtain ⟨g, hg, h⟩ := Option.bind_eq_some_iff.1 h
        cases h
        rw [← CTypeCode.findCAlignment_skipAlias] at hm
        have hb := CTypeCode.bodyOffset_eq hk hd hs hm
        have ha : (tc.skipAlias.arm switch).findCAlignment ∣ mem + tc.skipAlias.bodyOffset := by
          rw [← hb]
          exact (CTypeCode.arm_aligned _ _).trans (dvd_alignUp _ _)
        rw [hb] at hg
        obtain ⟨hle, hge⟩ := freeable_of_returns body hg
          (fun c hcm => hr c (List.mem_cons_of_mem _ hcm)) hc.2 ha
        have hown : _ = _ := hr _ List.mem_cons_self
        dsimp only at hown
        rw [hb] at hown
        refine ⟨hle, fun hp => ?_⟩
        rw [CValue.freeable, Bool.and_eq_true]
        refine ⟨?_, hge hp⟩
        rw [CTypeCode.unionFilled_iff hk, CTypeCode.gatherAllocInfo_skipAlias]
        omega
      · cases h
    · cases h
  | .seq elements => by
    intro block tc mem f h hr hc hm
    simp only [CValue.conforms, Bool.and_eq_true, Bool.or_eq_true, decide_eq_true_eq] at hc
    rw [freekids] at h
    rw [CValue.pointers, CValue.freeable]
    rcases hc.1 with ⟨hk, _⟩ | ⟨hk, hlen⟩
    · simp only [hk] at h
      obtain ⟨g, hg, h⟩ := Option.bind_eq_some_iff.1 h
      cases h
      obtain ⟨hle, hge⟩ := freeableEach_of_returns elements hg
        (fun c hcm => hr c (List.mem_cons_of_mem _ hcm)) hc.2 (Nat.dvd_zero _)
      rw [if_pos hk, if_pos hk, List.length_cons]
      exact ⟨by omega, fun hp => hge (by omega)⟩
    · simp only [hk] at h
      obtain ⟨g, hg, h⟩ := Option.bind_eq_some_iff.1 h
      cases h
      have ha : tc.skipAlias.element.findCAlignment ∣ mem := by
        have hae := CTypeCode.findCAlignment_array hk
        rw [CTypeCode.findCAlignment_skipAlias] at hae
        rw [CTypeCode.element, CTypeCode.null, ← hae]
        exact hm
      obtain ⟨hle, hge⟩ := freeableEach_of_returns elements hg
        (fun c hcm => hr c (List.mem_cons_of_mem _ hcm)) hc.2 ha
      have hne : tc.skipAlias.kind ≠ .sequence := by
        rw [hk]
        decide
      rw [if_neg hne, if_neg hne, hlen, Nat.zero_add]
      exact ⟨hle, hge⟩

theorem freeableAll_of_returns : (vs : List (CValue α)) →
    ∀ ⦃block : List Nat⦄ ⦃tcs : List CTypeCode⦄ ⦃mem : Nat⦄ ⦃f : Freeing⦄,
    freeMembers block tcs mem vs = some f → (∀ c ∈ f.calls, c.Returns) →
    CValue.conformAll tcs vs = true →
    f.released.length ≤ CValue.pointersAll tcs vs ∧
      (CValue.pointersAll tcs vs ≤ f.released.length → CValue.freeableAll tcs vs = true)
  | [] => by
    intro block tcs mem f h _ _
    cases tcs with
    | nil =>
      cases h
      exact ⟨Nat.zero_le _, fun _ => rfl⟩
    | cons tc tcs => cases h
  | v :: vs => by
    intro block tcs mem f h hr hc
    cases tcs with
    | nil => cases h
    | cons tc tcs =>
      simp only [CValue.conformAll, Bool.and_eq_true] at hc
      rw [freeMembers] at h
      obtain ⟨g₁, h₁, h⟩ := Option.bind_eq_some_iff.1 h
      obtain ⟨g₂, h₂, h⟩ := Option.bind_eq_some_iff.1 h
      cases h
      obtain ⟨hle₁, hge₁⟩ := freeable_of_returns v h₁
        (fun c hcm => hr c (List.mem_append_left _ hcm)) hc.1 (dvd_alignUp _ _)
      obtain ⟨hle₂, hge₂⟩ := freeableAll_of_returns vs h₂
        (fun c hcm => hr c (List.mem_append_right _ hcm)) hc.2
      rw [CValue.pointersAll, CValue.freeableAll, Bool.and_eq_true, List.length_append]
      exact ⟨by omega, fun hp => ⟨hge₁ (by omega), hge₂ (by omega)⟩⟩

theorem freeableEach_of_returns : (vs : List (CValue α)) →
    ∀ ⦃block : List Nat⦄ ⦃tc : CTypeCode⦄ ⦃how mem : Nat⦄ ⦃f : Freeing⦄,
    freeElements block tc how mem vs = some f → (∀ c ∈ f.calls, c.Returns) →
    CValue.conformEach tc vs = true → tc.findCAlignment ∣ mem →
    f.released.length ≤ CValue.pointersEach tc vs ∧
      (CValue.pointersEach tc vs ≤ f.released.length → CValue.freeableEach tc how vs = true)
  | [] => by
    intro block tc how mem f h _ _ _
    cases how with
    | zero =>
      cases h
      exact ⟨Nat.zero_le _, fun _ => rfl⟩
    | succ how => cases h
  | v :: vs => by
    intro block tc how mem f h hr hc hm
    cases how with
    | zero =>
      cases h
      exact ⟨Nat.zero_le _, fun hp =>
        (CValue.freeableEach_zero tc (v :: vs)).2 (Nat.le_zero.1 hp)⟩
    | succ how =>
      simp only [CValue.conformEach, Bool.and_eq_true] at hc
      rw [freeElements] at h
      obtain ⟨g₁, h₁, h⟩ := Option.bind_eq_some_iff.1 h
      obtain ⟨g₂, h₂, h⟩ := Option.bind_eq_some_iff.1 h
      cases h
      have hret : g₁.retval = mem + tc.gatherAllocInfo :=
        hr _ (List.mem_append_left _ (freekids_call_mem h₁))
      obtain ⟨hle₁, hge₁⟩ := freeable_of_returns v h₁
        (fun c hcm => hr c (List.mem_append_left _ hcm)) hc.1 hm
      obtain ⟨hle₂, hge₂⟩ := freeableEach_of_returns vs h₂
        (fun c hcm => hr c (List.mem_append_right _ hcm)) hc.2
        (by rw [hret]; exact Nat.dvd_add hm tc.findCAlignment_dvd_gather)
      rw [CValue.pointersEach, CValue.freeableEach, Bool.and_eq_true, List.length_append]
      exact ⟨by omega, fun hp => ⟨hge₁ (by omega), hge₂ (by omega)⟩⟩

end

/-- The value that `W` has laid out in an aligned block is freed: every call made returns the
address of its part plus the size of it, and the slots released are those `W` has written. -/
def FreedAsLaidOut (tc : CTypeCode) (v : CValue α) (mem : Nat) (w : Walk) : Prop :=
  ∃ f, freekids [] tc mem v = some f ∧ f.retval = mem + tc.gatherAllocInfo ∧
    (∀ c ∈ f.calls, c.Returns) ∧ f.released = w.slots

/-- `union switch (octet) { case 1: string; case 2: octet [9]; }` -/
def CTypeCode.ragged : CTypeCode :=
  .node ⟨.union, 0, [], [], [], [1, 2], -1, 0, 0⟩
    [.basic .string, .node ⟨.array, 9, [], [], [], [], -1, 0, 0⟩ [.basic .octet] none]
    (some (.basic .octet))

/-- `struct { U first; octet second; string third; }` for a given U. -/
def CTypeCode.followed (first : CTypeCode) : CTypeCode :=
  .node ⟨.struct, 0, [], [], [], [], -1, 0, 0⟩ [first, .basic .octet, .basic .string] none

/-- A string, an octet and a string, the first of them in the union. -/
def CValue.drifting : CValue Unit := .record [.union 1 (.atom ()), .atom (), .atom ()]

end ORBit2
