import ORBit2.ValueWalks

/-! What `CORBA_TypeCode_equal` compares of a TypeCode, and that TypeCodes it finds equal lay
their values out alike. -/

set_option autoImplicit false

namespace ORBit2
open Words

namespace CTypeCode

/-- The fields of a TypeCode that holds nothing but its kind. -/
def blank (kind : TCKind) : TCInfo := ⟨kind, 0, [], [], [], [], -1, 0, 0⟩

/-- The fields `typecode_equiv_internal` looks at for a kind. -/
def coreInfo (info : TCInfo) : TCInfo :=
  match info.kind with
  | .wstring | .string | .sequence | .array => { blank info.kind with length := info.length }
  | .objref | .except | .struct | .alias => { blank info.kind with repoId := info.repoId }
  | .union =>
      { blank info.kind with
        repoId := info.repoId, sublabels := info.sublabels, defaultIndex := info.defaultIndex }
  | .enum => { blank info.kind with repoId := info.repoId, subnames := info.subnames }
  | .fixed => { blank info.kind with digits := info.digits, scale := info.scale }
  | kind => blank kind

/-- The kinds whose parts are compared. -/
def hasParts : TCKind → Bool
  | .except | .struct | .union | .sequence | .array | .alias => true
  | _ => false

mutual

/-- A TypeCode reduced to what is compared. -/
@[grind =] def core : CTypeCode → CTypeCode
  | .node info subtypes discriminator =>
      .node (coreInfo info) (if hasParts info.kind then coreAll subtypes else [])
        (if info.kind = .union then coreDiscriminator discriminator else none)

@[grind =] def coreAll : List CTypeCode → List CTypeCode
  | [] => []
  | tc :: tcs => core tc :: coreAll tcs

@[grind =] def coreDiscriminator : Option CTypeCode → Option CTypeCode
  | none => none
  | some tc => some (core tc)

end

theorem coreAll_eq_map (tcs : List CTypeCode) : coreAll tcs = tcs.map core := by
  induction tcs with
  | nil => rfl
  | cons tc tcs ih => rw [coreAll, ih, List.map_cons]

@[simp] theorem coreInfo_kind (info : TCInfo) : (coreInfo info).kind = info.kind := by
  unfold coreInfo
  split <;> simp_all [blank]

@[simp] theorem core_kind (tc : CTypeCode) : tc.core.kind = tc.kind := by
  cases tc
  exact coreInfo_kind _

@[simp] theorem core_info (tc : CTypeCode) : tc.core.info = coreInfo tc.info := by
  cases tc
  rfl

theorem core_subtypes {tc : CTypeCode} (h : hasParts tc.kind = true) :
    tc.core.subtypes = tc.subtypes.map core := by
  cases tc with
  | node info subtypes discriminator =>
    have h' : hasParts info.kind = true := h
    simp [core, CTypeCode.subtypes, h', coreAll_eq_map]

theorem core_discriminator {tc : CTypeCode} (h : tc.kind = .union) :
    tc.core.discriminator = tc.discriminator.map core := by
  cases tc with
  | node info subtypes discriminator =>
    have h' : info.kind = .union := h
    cases discriminator <;> simp [core, CTypeCode.discriminator, h', coreDiscriminator]

theorem core_skipAlias : (tc : CTypeCode) → tc.core.skipAlias = tc.skipAlias.core
  | .node info [] discriminator => by
    rw [core]
    unfold skipAlias
    by_cases hk : info.kind = .alias
    · simp [hk, hasParts, coreAll, core]
    · cases h : info.kind <;> simp_all [core]
  | .node info (sub :: subtypes) discriminator => by
    by_cases hk : info.kind = .alias
    · have ih := core_skipAlias sub
      simp [core, skipAlias, hk, hasParts, coreAll, ih]
    · have hs : (node info (sub :: subtypes) discriminator).skipAlias =
          node info (sub :: subtypes) discriminator := skipAlias_of_ne hk
      rw [hs]
      exact skipAlias_of_ne (by rw [core_kind]; exact hk)

mutual

theorem findCAlignment_core : (tc : CTypeCode) → tc.core.findCAlignment = tc.findCAlignment
  | .node info subtypes discriminator => by
    have hs := widestAlignment_core subtypes
    have hh := headAlignment_core subtypes
    have hd := discriminatorAlignment_core discriminator
    rw [core, findCAlignment, findCAlignment, coreInfo_kind]
    cases hk : info.kind <;> simp [hasParts, hs, hh, hd]

theorem widestAlignment_core : (tcs : List CTypeCode) →
    widestAlignment (coreAll tcs) = widestAlignment tcs
  | [] => rfl
  | tc :: tcs => by
    rw [coreAll, widestAlignment, widestAlignment, findCAlignment_core tc,
      widestAlignment_core tcs]

theorem headAlignment_core : (tcs : List CTypeCode) →
    headAlignment (coreAll tcs) = headAlignment tcs
  | [] => rfl
  | tc :: _ => by rw [coreAll, headAlignment, headAlignment, findCAlignment_core tc]

theorem discriminatorAlignment_core : (d : Option CTypeCode) →
    discriminatorAlignment (coreDiscriminator d) = discriminatorAlignment d
  | none => rfl
  | some tc => by
    rw [coreDiscriminator, discriminatorAlignment, discriminatorAlignment, findCAlignment_core tc]

end

theorem lastRise_core (prevalign : Nat) (n : Option Nat) (tcs : List CTypeCode) :
    lastRise prevalign n (coreAll tcs) = lastRise prevalign n tcs := by
  induction tcs generalizing prevalign n with
  | nil => rfl
  | cons tc tcs ih => rw [coreAll, lastRise, lastRise, findCAlignment_core, ih]

mutual

theorem gatherAllocInfo_core : (tc : CTypeCode) → tc.core.gatherAllocInfo = tc.gatherAllocInfo
  | .node info subtypes discriminator => by
    have hh := gatherHead_core subtypes
    have hm := gatherMembers_core subtypes
    have hw := gatherWidest_core subtypes
    have hd := gatherDiscriminator_core discriminator
    have ha := widestAlignment_core subtypes
    have hda := discriminatorAlignment_core discriminator
    rw [core, gatherAllocInfo, gatherAllocInfo, coreInfo_kind]
    cases hk : info.kind <;>
      simp [hasParts, hh, hm, hw, hd, ha, hda, alignToRise, lastRise_core, coreInfo, hk]

theorem gatherHead_core : (tcs : List CTypeCode) → gatherHead (coreAll tcs) = gatherHead tcs
  | [] => rfl
  | tc :: _ => by rw [coreAll, gatherHead, gatherHead, gatherAllocInfo_core tc]

theorem gatherMembers_core : (tcs : List CTypeCode) → ∀ sum : Nat,
    gatherMembers sum (coreAll tcs) = gatherMembers sum tcs
  | [], _ => rfl
  | tc :: tcs, sum => by
    rw [coreAll, gatherMembers, gatherMembers, gatherAllocInfo_core tc, findCAlignment_core tc,
      gatherMembers_core tcs]

theorem gatherWidest_core : (tcs : List CTypeCode) →
    gatherWidest (coreAll tcs) = gatherWidest tcs
  | [] => rfl
  | tc :: tcs => by
    rw [coreAll, gatherWidest, gatherWidest, gatherAllocInfo_core tc, gatherWidest_core tcs]

theorem gatherDiscriminator_core : (d : Option CTypeCode) →
    gatherDiscriminator (coreDiscriminator d) = gatherDiscriminator d
  | none => rfl
  | some tc => by
    rw [coreDiscriminator, gatherDiscriminator, gatherDiscriminator, gatherAllocInfo_core tc]

end

@[simp] theorem null_core : null.core = null := rfl

theorem element_core {tc : CTypeCode} (h : hasParts tc.kind = true) :
    tc.core.element = tc.element.core := by
  rw [element, element, core_subtypes h]
  cases tc.subtypes <;> rfl

theorem arm_core {tc : CTypeCode} (h : tc.kind = .union) (switch : Int) :
    tc.core.arm switch = (tc.arm switch).core := by
  have hl : tc.core.info.sublabels = tc.info.sublabels := by
    rw [core_info, coreInfo, show tc.info.kind = .union from h]
  have hd : tc.core.info.defaultIndex = tc.info.defaultIndex := by
    rw [core_info, coreInfo, show tc.info.kind = .union from h]
  rw [arm, arm, hl, hd]
  cases getUnionTag tc.info.sublabels tc.info.defaultIndex switch with
  | none => rfl
  | some i =>
    simp only [core_subtypes (show hasParts tc.kind = true by rw [h]; rfl), List.getD_eq_getElem?_getD,
      List.getElem?_map]
    cases tc.subtypes[i]? <;> rfl

theorem bodyOffset_core {tc : CTypeCode} (h : tc.kind = .union) :
    tc.core.bodyOffset = tc.bodyOffset := by
  rw [bodyOffset, bodyOffset, core_discriminator h, findCAlignment_core]
  cases tc.discriminator with
  | none => rfl
  | some d => rw [Option.map_some, gatherDiscriminator, gatherDiscriminator, gatherAllocInfo_core]

/-- The kinds that are compared part by part need their parts. -/
theorem wellFormed_node {info : TCInfo} {subtypes : List CTypeCode}
    {discriminator : Option CTypeCode} (h : (node info subtypes discriminator).wellFormed = true) :
    allWellFormed subtypes = true ∧ discriminatorWellFormed discriminator = true ∧
      (info.kind = .union → discriminator.isSome = true ∧
        info.sublabels.length = subtypes.length) ∧
      (info.kind = .sequence ∨ info.kind = .array ∨ info.kind = .alias →
        subtypes.length = 1) := by
  rw [wellFormed, Bool.and_eq_true, Bool.and_eq_true] at h
  obtain ⟨⟨hk, hs⟩, hd⟩ := h
  refine ⟨hs, hd, ?_, ?_⟩
  · intro hu
    simp only [hu, Bool.and_eq_true, beq_iff_eq] at hk
    exact ⟨hk.1.1, hk.1.2⟩
  · rintro (hu | hu | hu) <;> simpa [hu] using hk

mutual

theorem typecodeEquivInternal_core : (tc : CTypeCode) → tc.wellFormed = true →
    ∀ tc' : CTypeCode, tc'.wellFormed = true →
      ∃ b, typecodeEquivInternal true tc tc' = some b ∧ (b = true ↔ tc.core = tc'.core)
  | .node info subtypes discriminator, h, .node info' subtypes' discriminator', h' => by
    obtain ⟨hs, hd, hu, hone⟩ := wellFormed_node h
    obtain ⟨hs', hd', hu', hone'⟩ := wellFormed_node h'
    unfold typecodeEquivInternal
    rw [if_neg (by simp)]
    simp only [if_true]
    by_cases hk : info.kind = info'.kind
    · have hm := equivMembers_core subtypes hs subtypes' hs'
      rw [if_neg (by simpa using hk)]
      rw [← hk] at hu' hone'
      have hne : subtypes.length ≠ subtypes'.length → coreAll subtypes ≠ coreAll subtypes' := by
        intro hl hc
        apply hl
        simpa [coreAll_eq_map] using congrArg List.length hc
      cases hkind : info.kind
      case union =>
        obtain ⟨hsome, hlabels⟩ := hu hkind
        obtain ⟨hsome', hlabels'⟩ := hu' hkind
        obtain ⟨d, rfl⟩ := Option.isSome_iff_exists.1 hsome
        obtain ⟨d', rfl⟩ := Option.isSome_iff_exists.1 hsome'
        obtain ⟨c, hc, hciff⟩ := typecodeEquivInternal_core d hd d' hd'
        by_cases hid : info.repoId = info'.repoId
        · by_cases hl : subtypes.length = subtypes'.length
          · obtain ⟨e, he, heiff⟩ := equivArms_core subtypes hs subtypes' hs' hl info.sublabels
              info'.sublabels hlabels hlabels'
            by_cases hdef : info.defaultIndex = info'.defaultIndex
            · cases c
              · refine ⟨false, by simp [hid, hl, equivDiscriminator, hc], ?_⟩
                have hne : d.core ≠ d'.core := fun hcc => by simp [hcc] at hciff
                simp [core, coreDiscriminator, hkind, ← hk, hne]
              · refine ⟨e, by simp [hid, hl, equivDiscriminator, hc, hdef, he], ?_⟩
                rw [heiff]
                have hcc : d.core = d'.core := hciff.1 rfl
                simp [core, coreDiscriminator, coreInfo, blank, hasParts, hkind, ← hk, hcc, hid,
                  hdef, and_comm]
            · refine ⟨false, ?_, ?_⟩
              · cases c <;> simp [hid, hl, equivDiscriminator, hc, hdef]
              · simp [core, coreInfo, hkind, ← hk, hdef]
          · refine ⟨false, by simp [hl], ?_⟩
            simp [core, hasParts, hkind, ← hk, hne hl]
        · refine ⟨false, by simp [hid], ?_⟩
          simp [core, coreInfo, hkind, ← hk, hid]
      case sequence | array =>
        have h1 := hone (by simp [hkind])
        have h1' := hone' (by simp [hkind])
        obtain ⟨b, hb, hiff⟩ := hm (by rw [h1, h1'])
        by_cases hlen : info.length = info'.length
        · refine ⟨b, by simp [hlen, h1, h1', hb], ?_⟩
          rw [hiff]
          simp [core, coreInfo, blank, hasParts, hkind, ← hk, hlen]
        · refine ⟨false, by simp [hlen], ?_⟩
          simp [core, coreInfo, hkind, ← hk, hlen]
      case «alias» =>
        have h1 := hone (by simp [hkind])
        have h1' := hone' (by simp [hkind])
        obtain ⟨b, hb, hiff⟩ := hm (by rw [h1, h1'])
        by_cases hid : info.repoId = info'.repoId
        · refine ⟨b, by simp [hid, h1, h1', hb], ?_⟩
          rw [hiff]
          simp [core, coreInfo, blank, hasParts, hkind, ← hk, hid]
        · refine ⟨false, by simp [hid], ?_⟩
          simp [core, coreInfo, hkind, ← hk, hid]
      case struct | except =>
        by_cases hid : info.repoId = info'.repoId
        · by_cases hl : subtypes.length = subtypes'.length
          · obtain ⟨b, hb, hiff⟩ := hm hl
            refine ⟨b, by simp [hid, hl, hb], ?_⟩
            rw [hiff]
            simp [core, coreInfo, blank, hasParts, hkind, ← hk, hid]
          · refine ⟨false, by simp [hl], ?_⟩
            simp [core, hasParts, hkind, ← hk, hne hl]
        · refine ⟨false, by simp [hid], ?_⟩
          simp [core, coreInfo, hkind, ← hk, hid]
      case enum =>
        refine ⟨_, rfl, ?_⟩
        simp only [core, coreInfo, blank, hasParts, hkind, ← hk]
        simp only [beq_iff_eq, Bool.and_eq_true]
        constructor
        · rintro ⟨⟨_, hid⟩, hsub⟩
          simp [hid, hsub]
        · intro hc
          simp only [node.injEq, TCInfo.mk.injEq] at hc
          obtain ⟨⟨_, _, _, hid, hsub, _⟩, _⟩ := hc
          exact ⟨⟨congrArg List.length hsub, hid⟩, hsub⟩
      all_goals
        refine ⟨_, rfl, ?_⟩
        simp only [core, coreInfo, blank, hasParts, hkind, ← hk]
        simp
    · refine ⟨false, by rw [if_pos (by simpa using hk)], ?_⟩
      have hne : (node info subtypes discriminator).core ≠
          (node info' subtypes' discriminator').core := by
        intro hc
        have hck := congrArg CTypeCode.kind hc
        rw [core_kind, core_kind] at hck
        exact hk hck
      simp [hne]

theorem equivMembers_core : (tcs : List CTypeCode) → allWellFormed tcs = true →
    ∀ tcs' : List CTypeCode, allWellFormed tcs' = true → tcs.length = tcs'.length →
      ∃ b, equivMembers true tcs tcs' = some b ∧ (b = true ↔ coreAll tcs = coreAll tcs')
  | [], _, [], _, _ => ⟨true, by simp [equivMembers], by simp⟩
  | tc :: tcs, h, tc' :: tcs', h', hl => by
    rw [allWellFormed, Bool.and_eq_true] at h h'
    obtain ⟨b, hb, hiff⟩ := typecodeEquivInternal_core tc h.1 tc' h'.1
    obtain ⟨c, hc, hciff⟩ := equivMembers_core tcs h.2 tcs' h'.2 (by simpa using hl)
    rw [equivMembers, hb]
    simp only [coreAll, List.cons.injEq, ← hiff, ← hciff]
    cases b
    · exact ⟨false, rfl, by simp⟩
    · exact ⟨c, hc, by simp⟩

theorem equivArms_core : (tcs : List CTypeCode) → allWellFormed tcs = true →
    ∀ tcs' : List CTypeCode, allWellFormed tcs' = true → tcs.length = tcs'.length →
      ∀ labels labels' : List Int, labels.length = tcs.length → labels'.length = tcs'.length →
      ∃ b, equivArms true tcs labels tcs' labels' = some b ∧
        (b = true ↔ coreAll tcs = coreAll tcs' ∧ labels = labels')
  | [], _, [], _, _, [], [], _, _ => ⟨true, by simp [equivArms], by simp⟩
  | tc :: tcs, h, tc' :: tcs', h', hl, label :: labels, label' :: labels', hn, hn' => by
    rw [allWellFormed, Bool.and_eq_true] at h h'
    obtain ⟨b, hb, hiff⟩ := typecodeEquivInternal_core tc h.1 tc' h'.1
    obtain ⟨c, hc, hciff⟩ := equivArms_core tcs h.2 tcs' h'.2 (by simpa using hl) labels labels'
      (by simpa using hn) (by simpa using hn')
    rw [equivArms, hb]
    simp only [coreAll, List.cons.injEq, ← hiff]
    cases b
    · exact ⟨false, rfl, by simp⟩
    · by_cases hlabel : label = label'
      · refine ⟨c, by simpa [hlabel] using hc, ?_⟩
        rw [hciff]
        simp [hlabel]
      · exact ⟨false, by simp [hlabel], by simp [hlabel]⟩

end

/-- `CORBA_TypeCode_equal` is equality of what it compares. -/
theorem equal_iff_core {tc tc' : CTypeCode} (h : tc.wellFormed = true)
    (h' : tc'.wellFormed = true) :
    tc.equal tc' = some true ∧ tc.core = tc'.core ∨
      tc.equal tc' = some false ∧ tc.core ≠ tc'.core := by
  obtain ⟨b, hb, hiff⟩ := typecodeEquivInternal_core tc h tc' h'
  cases b
  · exact .inr ⟨hb, fun hc => by simp [hc] at hiff⟩
  · exact .inl ⟨hb, hiff.1 rfl⟩

end CTypeCode
end ORBit2
