import ORBit2.Base.Outcomes
import ORBit2.Base.Placement
import ORBit2.DynAny

/-! The default values of DynAnys in memory (`dynany_init_default`), and the addresses of their
components. -/

set_option autoImplicit false

namespace ORBit2.DefaultLayout
open Words Placement CTypeCode

/-- What a default is made of; there is none of a Principal, which would have to be empty. -/
inductive Default where
  | zeros (size : Nat)
  | emptyString
  | nilObject
  | anyOfNull
  | nullTypeCode
  | sequence (maximum : Nat)
  | emptyPrincipal
  deriving DecidableEq

/-- The kinds that `dynany_init_default` knows, but for those with parts. -/
def defaultOf (info : TCInfo) : Option Default :=
  match info.kind with
  | .long | .ulong | .enum | .short | .ushort | .wchar | .boolean | .char | .octet | .longlong
  | .ulonglong | .fixed | .float | .double | .longdouble => some (.zeros info.kind.sizeof)
  | .wstring | .string => some .emptyString
  | .objref => some .nilObject
  | .any => some .anyOfNull
  | .typeCode => some .nullTypeCode
  | .sequence => some (.sequence info.length)
  | _ => none

abbrev Cells := List (Nat × Default)

/-- What is stored by calls one after another, and `*val` behind them. -/
@[grind =] def initAll : List (Nat → Cells × Nat) → (val : Nat) → Cells × Nat
  | [], val => ([], val)
  | init :: inits, val =>
      let (stored, val) := init val
      let (more, val) := initAll inits val
      (stored ++ more, val)

mutual

/-- `dynany_init_default`: what is stored at which address, and `*val` behind it. -/
@[grind =] def initDefault : CTypeCode → (val : Nat) → Cells × Nat
  | .node info subtypes discriminator, val =>
      let tc := CTypeCode.node info subtypes discriminator
      let val := alignUp val tc.findCAlignment
      match info.kind with
      | .array => initAll (List.replicate info.length (initHead subtypes)) val
      | .except | .struct => initAll (initEach subtypes) val
      | .union =>
          let (stored, behind) := initDiscriminator discriminator val
          (stored ++ (initHead subtypes behind).1, val + tc.gatherAllocInfo)
      | .alias => initHead subtypes val
      | _ =>
          match defaultOf info with
          | some d => ([(val, d)], val + tc.gatherAllocInfo)
          | none => ([], val)

@[grind =] def initHead : List CTypeCode → Nat → Cells × Nat
  | [], val => ([], val)
  | tc :: _, val => initDefault tc val

@[grind =] def initEach : List CTypeCode → List (Nat → Cells × Nat)
  | [] => []
  | tc :: tcs => initDefault tc :: initEach tcs

@[grind =] def initDiscriminator : Option CTypeCode → Nat → Cells × Nat
  | none, val => ([], val)
  | some tc, val => initDefault tc val

end

/-! ### Where it belongs -/

mutual

/-- The components without parts, at the offsets that `ORBit_gather_alloc_info` counts. -/
@[grind =] def leaves : CTypeCode → Cells
  | .node info subtypes _ =>
      match info.kind with
      | .array => place 0 (List.replicate info.length (headPart subtypes))
      | .except | .struct => place 0 (memberParts subtypes)
      | .alias => (headPart subtypes).cells
      | .union => []
      | kind => if kind.sizeof = 0 then [] else [(0, (defaultOf info).getD .emptyPrincipal)]

@[grind =] def headPart : List CTypeCode → Piece Default
  | [] => ⟨1, 0, []⟩
  | tc :: _ => ⟨tc.findCAlignment, tc.gatherAllocInfo, leaves tc⟩

@[grind =] def memberParts : List CTypeCode → List (Piece Default)
  | [] => []
  | tc :: tcs => ⟨tc.findCAlignment, tc.gatherAllocInfo, leaves tc⟩ :: memberParts tcs

end

mutual

@[grind =] def unionFree : CTypeCode → Bool
  | .node info subtypes _ => info.kind ≠ .union && allUnionFree subtypes

@[grind =] def allUnionFree : List CTypeCode → Bool
  | [] => true
  | tc :: tcs => unionFree tc && allUnionFree tcs

end

/-- The default value lies where it belongs, in a block of the size that it is to have. -/
structure Built (tc : CTypeCode) : Prop where
  stored : ∀ value, 8 ∣ value → (initDefault tc value).1 = shift value (leaves tc)
  block : tc.allocByTc = tc.gatherAllocInfo

/-! ### Padding -/

mutual

/-- How far a value reaches, without what is behind its last component or that of a part. -/
@[grind =] def reach : CTypeCode → Nat
  | .node info subtypes discriminator =>
      match info.kind with
      | .array => lastEnd 0 (List.replicate info.length (headReach subtypes))
      | .except | .struct => lastEnd 0 (memberReach subtypes)
      | .alias => (headReach subtypes).2
      | .union => gatherAllocInfo (.node info subtypes discriminator)
      | kind => if (defaultOf info).isSome then kind.sizeof else 0

@[grind =] def headReach : List CTypeCode → Nat × Nat
  | [] => (1, 0)
  | tc :: _ => (tc.findCAlignment, reach tc)

@[grind =] def memberReach : List CTypeCode → List (Nat × Nat)
  | [] => []
  | tc :: tcs => (tc.findCAlignment, reach tc) :: memberReach tcs

end

mutual

/-- No padding at the end of a part that something lies behind, unless the alignment of what is
behind makes up for it; and no Principal. -/
@[grind =] def tight : CTypeCode → Bool
  | .node info subtypes _ =>
      match info.kind with
      | .array =>
          info.length = 0 || (headPart subtypes).cells = [] ||
            tightHead subtypes && (info.length = 1 ||
              alignUp (headReach subtypes).2 (headAlignment subtypes) = gatherHead subtypes)
      | .except | .struct => tightMembers 0 0 subtypes
      | .alias => tightHead subtypes
      | .principal => false
      | _ => true

@[grind =] def tightHead : List CTypeCode → Bool
  | [] => true
  | tc :: _ => tight tc

/-- The same from two positions on, without padding and with it. -/
@[grind =] def tightMembers (near far : Nat) : List CTypeCode → Bool
  | [] => true
  | tc :: tcs =>
      (leaves tc = [] ||
        alignUp near tc.findCAlignment = alignUp far tc.findCAlignment && tight tc) &&
      tightMembers (alignUp near tc.findCAlignment + reach tc)
        (alignUp far tc.findCAlignment + tc.gatherAllocInfo) tcs

end

/-! ### Parts -/

/-- What is stored by a call at an address. -/
def Fills (init : Nat → Cells × Nat) (p : Piece Default) : Prop :=
  ∀ val, init val = (shift (alignUp val p.align) p.cells, alignUp val p.align + p.size)

def storedPart (tc : CTypeCode) : Piece Default := ⟨tc.findCAlignment, reach tc, (initDefault tc 0).1⟩

def laidPart (tc : CTypeCode) : Piece Default := ⟨tc.findCAlignment, tc.gatherAllocInfo, leaves tc⟩

def storedHead (tcs : List CTypeCode) : Piece Default := (tcs.head?.map storedPart).getD ⟨1, 0, []⟩

theorem memberReach_eq (tcs : List CTypeCode) :
    memberReach tcs = (tcs.map storedPart).map Piece.extent := by
  induction tcs with
  | nil => rfl
  | cons tc tcs ih => rw [memberReach, ih]; rfl

theorem headReach_eq (tcs : List CTypeCode) : headReach tcs = (storedHead tcs).extent := by
  cases tcs <;> rfl

theorem memberParts_eq (tcs : List CTypeCode) : memberParts tcs = tcs.map laidPart := by
  induction tcs with
  | nil => rfl
  | cons tc tcs ih => rw [memberParts, ih]; rfl

theorem gatherMembers_eq (sum : Nat) (tcs : List CTypeCode) :
    gatherMembers sum tcs = lastEnd sum ((tcs.map laidPart).map Piece.extent) := by
  induction tcs generalizing sum with
  | nil => rfl
  | cons tc tcs ih => exact ih _

theorem headPart_extent (tcs : List CTypeCode) :
    (headPart tcs).extent = (headAlignment tcs, gatherHead tcs) := by
  cases tcs <;> rfl

theorem storedHead_align (tcs : List CTypeCode) : (storedHead tcs).align = headAlignment tcs := by
  cases tcs <;> rfl

theorem initAll_eq {inits : List (Nat → Cells × Nat)} {ps : List (Piece Default)}
    (h : List.Forall₂ Fills inits ps) (val : Nat) :
    initAll inits val = (place val ps, lastEnd val (ps.map Piece.extent)) := by
  induction h generalizing val with
  | nil => rfl
  | cons hp _ ih =>
    simp only [initAll, hp val, ih]
    rfl

/-- Calls one after another, from an address that all are aligned for. -/
theorem initAll_fills {inits : List (Nat → Cells × Nat)} {ps : List (Piece Default)} {align : Nat}
    (h : List.Forall₂ Fills inits ps) (hps : ∀ p ∈ ps, 0 < p.align ∧ p.align ∣ align) (val : Nat) :
    initAll inits (alignUp val align) =
      (shift (alignUp val align) (place 0 ps),
        alignUp val align + lastEnd 0 (ps.map Piece.extent)) := by
  have hdvd : ∀ p ∈ ps, 0 < p.align ∧ p.align ∣ alignUp val align := fun p hp =>
    ⟨(hps p hp).1, (hps p hp).2.trans (dvd_alignUp _ _)⟩
  obtain ⟨hplace, hend⟩ := place_add hdvd 0
  rw [initAll_eq h]
  exact congrArg₂ Prod.mk hplace hend

/-- The kinds without parts. -/
def plain : TCKind → Bool
  | .array | .except | .struct | .union | .alias => false
  | _ => true

section
variable {info : TCInfo} {subtypes : List CTypeCode} {discriminator : Option CTypeCode}

theorem gatherAllocInfo_plain (h : plain info.kind = true) :
    gatherAllocInfo (.node info subtypes discriminator) = info.kind.sizeof := by
  rw [gatherAllocInfo]
  cases hk : info.kind <;> rw [hk] at h <;> first | rfl | cases h

theorem reach_plain (h : plain info.kind = true) :
    reach (.node info subtypes discriminator) =
      if (defaultOf info).isSome then info.kind.sizeof else 0 := by
  rw [reach]
  cases hk : info.kind <;> rw [hk] at h <;> first | rfl | cases h

theorem initDefault_plain (h : plain info.kind = true) (val : Nat) :
    initDefault (.node info subtypes discriminator) val =
      match defaultOf info with
      | some d => ([(alignUp val (findCAlignment (.node info subtypes discriminator)), d)],
          alignUp val (findCAlignment (.node info subtypes discriminator)) + info.kind.sizeof)
      | none => ([], alignUp val (findCAlignment (.node info subtypes discriminator))) := by
  rw [initDefault, ← gatherAllocInfo_plain h]
  cases hk : info.kind <;> rw [hk] at h <;> first | rfl | cases h

theorem leaves_plain (h : plain info.kind = true) :
    leaves (.node info subtypes discriminator) =
      if info.kind.sizeof = 0 then [] else [(0, (defaultOf info).getD .emptyPrincipal)] := by
  rw [leaves]
  cases hk : info.kind <;> rw [hk] at h <;> first | rfl | cases h

theorem tight_plain (h : plain info.kind = true) :
    tight (.node info subtypes discriminator) = decide (info.kind ≠ .principal) := by
  rw [tight]
  cases hk : info.kind <;> rw [hk] at h <;> first | rfl | cases h

end

/-! ### Where the code stores -/

theorem storedPart_dvd {tc : CTypeCode} {tcs : List CTypeCode} (h : tc ∈ tcs) :
    0 < (storedPart tc).align ∧ (storedPart tc).align ∣ widestAlignment tcs :=
  ⟨tc.findCAlignment_pos, findCAlignment_dvd_widest h⟩

theorem headAlignment_pos (tcs : List CTypeCode) : 0 < headAlignment tcs :=
  Nat.pos_of_dvd_of_pos (headAlignment_dvd_eight tcs) (by omega)

theorem storedHead_pos (tcs : List CTypeCode) : 0 < (storedHead tcs).align := by
  rw [storedHead_align]
  exact headAlignment_pos tcs

/-- A value that is aligned for `align` and filled from its start. -/
theorem fills_of_init {init : Nat → Cells × Nat} {align size : Nat} {cells : Cells}
    (h : ∀ val, init val = (shift (alignUp val align) cells, alignUp val align + size))
    (halign : 0 < align) : Fills init ⟨align, size, (init 0).1⟩ := by
  intro val
  rw [h val, h 0, alignUp_zero halign]
  simp

mutual

theorem initDefault_fills : (tc : CTypeCode) → unionFree tc = true →
    Fills (initDefault tc) (storedPart tc)
  | .node info subtypes discriminator, hfree => by
    have hsub : allUnionFree subtypes = true := (Bool.and_eq_true _ _ ▸ unionFree.eq_1 _ _ _ ▸ hfree).2
    have hpos := findCAlignment_pos (.node info subtypes discriminator)
    have hmembers := fun val => initAll_fills (initEach_fills subtypes hsub) (fun p hp => by
      obtain ⟨tc, htc, rfl⟩ := List.mem_map.mp hp
      exact storedPart_dvd htc) val
    have hhead : ∀ n, ∀ p ∈ List.replicate n (storedHead subtypes),
        0 < p.align ∧ p.align ∣ headAlignment subtypes := fun n p hp => by
      obtain ⟨-, rfl⟩ := List.mem_replicate.mp hp
      exact ⟨storedHead_pos subtypes, (storedHead_align subtypes).dvd⟩
    have hrow := fun n val => initAll_fills
      (forall₂_replicate (initHead_fills subtypes hsub) n) (hhead n) val
    have hinit : ∃ cells, ∀ val, initDefault (.node info subtypes discriminator) val =
        (shift (alignUp val (findCAlignment (.node info subtypes discriminator))) cells,
          alignUp val (findCAlignment (.node info subtypes discriminator)) +
            reach (.node info subtypes discriminator)) := by
      cases hk : info.kind with
      | struct =>
        refine ⟨place 0 (subtypes.map storedPart), fun val => ?_⟩
        simp only [initDefault, reach, findCAlignment, hk, memberReach_eq]
        exact hmembers val
      | except =>
        refine ⟨place 0 (subtypes.map storedPart), fun val => ?_⟩
        simp only [initDefault, reach, findCAlignment, hk, memberReach_eq]
        exact hmembers val
      | array =>
        refine ⟨place 0 (List.replicate info.length (storedHead subtypes)), fun val => ?_⟩
        simp only [initDefault, reach, findCAlignment, hk, headReach_eq]
        rw [hrow info.length val, List.map_replicate]
      | «alias» =>
        refine ⟨(storedHead subtypes).cells, fun val => ?_⟩
        simp only [initDefault, reach, findCAlignment, hk, headReach_eq]
        rw [initHead_fills subtypes hsub, storedHead_align,
          alignUp_alignUp _ (storedHead_align subtypes ▸ storedHead_pos subtypes)]
        rfl
      | union => simp [unionFree, hk] at hfree
      | _ =>
        refine ⟨((defaultOf info).map fun d => (0, d)).toList, fun val => ?_⟩
        rw [initDefault_plain (by rw [hk]; rfl), reach_plain (by rw [hk]; rfl)]
        cases defaultOf info <;> rfl
    obtain ⟨cells, hcells⟩ := hinit
    exact fills_of_init hcells hpos

theorem initHead_fills : (tcs : List CTypeCode) → allUnionFree tcs = true →
    Fills (initHead tcs) (storedHead tcs)
  | [], _ => fun val => by simp [initHead, storedHead]
  | tc :: tcs, hfree => by
    rw [allUnionFree, Bool.and_eq_true] at hfree
    exact initDefault_fills tc hfree.1

theorem initEach_fills : (tcs : List CTypeCode) → allUnionFree tcs = true →
    List.Forall₂ Fills (initEach tcs) (tcs.map storedPart)
  | [], _ => .nil
  | tc :: tcs, hfree => by
    rw [allUnionFree, Bool.and_eq_true] at hfree
    exact .cons (initDefault_fills tc hfree.1) (initEach_fills tcs hfree.2)

end

/-! ### What is stored and what belongs there -/

section
variable {info : TCInfo} {subtypes : List CTypeCode} {discriminator : Option CTypeCode}

theorem storedPart_record (hk : info.kind = .struct ∨ info.kind = .except)
    (hfree : allUnionFree subtypes = true) : storedPart (.node info subtypes discriminator) =
      ⟨findCAlignment (.node info subtypes discriminator),
        lastEnd 0 ((subtypes.map storedPart).map Piece.extent), place 0 (subtypes.map storedPart)⟩ := by
  have hzero := alignUp_zero (findCAlignment_pos (.node info subtypes discriminator))
  rcases hk with hk | hk <;>
    simp only [storedPart, initDefault, reach, hzero, hk, memberReach_eq,
      initAll_eq (initEach_fills subtypes hfree)]

theorem storedPart_array (hk : info.kind = .array) (hfree : allUnionFree subtypes = true) :
    storedPart (.node info subtypes discriminator) =
      ⟨headAlignment subtypes, lastEnd 0 ((List.replicate info.length (storedHead subtypes)).map Piece.extent),
        place 0 (List.replicate info.length (storedHead subtypes))⟩ := by
  have hzero := alignUp_zero (headAlignment_pos subtypes)
  have hfills := forall₂_replicate (initHead_fills subtypes hfree) info.length
  simp only [storedPart, initDefault, reach, hzero, hk, headReach_eq, initAll_eq hfills,
    List.map_replicate, findCAlignment]

theorem storedPart_alias (hk : info.kind = .alias) (hfree : allUnionFree subtypes = true) :
    storedPart (.node info subtypes discriminator) = storedHead subtypes := by
  have hhead := alignUp_zero (storedHead_pos subtypes)
  simp only [storedPart, initDefault, reach, hk, headReach_eq, findCAlignment,
    initHead_fills subtypes hfree 0, hhead, ← storedHead_align, Piece.extent, shift_zero]

theorem laidPart_record (hk : info.kind = .struct ∨ info.kind = .except) :
    laidPart (.node info subtypes discriminator) =
      ⟨findCAlignment (.node info subtypes discriminator),
        alignUp (gatherMembers 0 subtypes) (widestAlignment subtypes),
        place 0 (subtypes.map laidPart)⟩ := by
  rcases hk with hk | hk <;> simp only [laidPart, leaves, gatherAllocInfo, hk, memberParts_eq]

theorem laidPart_array (hk : info.kind = .array) : laidPart (.node info subtypes discriminator) =
    ⟨headAlignment subtypes, gatherHead subtypes * info.length,
      place 0 (List.replicate info.length (headPart subtypes))⟩ := by
  simp only [laidPart, leaves, gatherAllocInfo, findCAlignment, hk]

theorem laidPart_alias (hk : info.kind = .alias) :
    laidPart (.node info subtypes discriminator) = headPart subtypes := by
  cases subtypes <;> simp only [laidPart, leaves, gatherAllocInfo, findCAlignment, hk] <;> rfl

/-- A default takes room. -/
theorem sizeof_of_defaultOf {d : Default} (h : defaultOf info = some d) : info.kind.sizeof ≠ 0 := by
  unfold defaultOf at h
  cases hk : info.kind <;> rw [hk] at h <;> cases h <;> decide

theorem storedPart_plain (hk : plain info.kind = true) : storedPart (.node info subtypes discriminator) =
    ⟨findCAlignment (.node info subtypes discriminator),
      if (defaultOf info).isSome then info.kind.sizeof else 0,
      ((defaultOf info).map fun d => (0, d)).toList⟩ := by
  have hzero := alignUp_zero (findCAlignment_pos (.node info subtypes discriminator))
  rw [storedPart, initDefault_plain hk, reach_plain hk, hzero]
  cases defaultOf info <;> rfl

theorem laidPart_plain (hk : plain info.kind = true) : laidPart (.node info subtypes discriminator) =
    ⟨findCAlignment (.node info subtypes discriminator), info.kind.sizeof,
      if info.kind.sizeof = 0 then [] else [(0, (defaultOf info).getD .emptyPrincipal)]⟩ := by
  rw [laidPart, leaves_plain hk, gatherAllocInfo_plain hk]

theorem under_plain (hk : plain info.kind = true) :
    Piece.Under (storedPart (.node info subtypes discriminator))
      (laidPart (.node info subtypes discriminator)) := by
  have hpos := findCAlignment_pos (.node info subtypes discriminator)
  rw [storedPart_plain hk, laidPart_plain hk]
  cases hd : defaultOf info with
  | none =>
    refine ⟨⟨hpos, fun _ => rfl, fun c hc => (nomatch hc)⟩, ⟨hpos, ?_, ?_⟩, rfl, Nat.zero_le _⟩
    · intro hempty
      by_contra hsize
      rw [if_neg hsize] at hempty
      cases hempty
    · intro c hc
      split at hc <;> cases hc
      rfl
  | some d =>
    rw [if_neg (sizeof_of_defaultOf hd)]
    refine ⟨⟨hpos, fun h => (nomatch h), ?_⟩, ⟨hpos, fun h => (nomatch h), ?_⟩, rfl, Nat.le_refl _⟩
    · rintro c ⟨⟩
      rfl
    · rintro c ⟨⟩
      rfl

end

mutual

theorem under : (tc : CTypeCode) → unionFree tc = true → Piece.Under (storedPart tc) (laidPart tc)
  | .node info subtypes discriminator, hfree => by
    have hsub : allUnionFree subtypes = true := (Bool.and_eq_true _ _ ▸ unionFree.eq_1 _ _ _ ▸ hfree).2
    have hpos := findCAlignment_pos (.node info subtypes discriminator)
    have hrecord : info.kind = .struct ∨ info.kind = .except → Piece.Under
        (storedPart (.node info subtypes discriminator)) (laidPart (.node info subtypes discriminator)) := by
      intro hk
      rw [storedPart_record hk hsub, laidPart_record hk]
      refine under_row (under_members subtypes hsub) hpos fun hzero => ?_
      rw [gatherMembers_eq, hzero, alignUp_zero (widestAlignment_pos subtypes)]
    cases hk : info.kind with
    | struct => exact hrecord (.inl hk)
    | except => exact hrecord (.inr hk)
    | array =>
      rw [storedPart_array hk hsub, laidPart_array hk]
      refine under_row (forall₂_replicate (under_head subtypes hsub) _) (headAlignment_pos subtypes) ?_
      rw [List.map_replicate, headPart_extent, lastEnd_replicate (headAlignment_pos subtypes)
        (headAlignment_dvd_gather subtypes) (Nat.dvd_zero _), Nat.zero_add]
      exact id
    | «alias» =>
      rw [storedPart_alias hk hsub, laidPart_alias hk]
      exact under_head subtypes hsub
    | union => simp [unionFree, hk] at hfree
    | _ => exact under_plain (by rw [hk]; rfl)

theorem under_head : (tcs : List CTypeCode) → allUnionFree tcs = true →
    Piece.Under (storedHead tcs) (headPart tcs)
  | [], _ => ⟨⟨Nat.one_pos, fun _ => rfl, fun c hc => (nomatch hc)⟩,
      ⟨Nat.one_pos, fun _ => rfl, fun c hc => (nomatch hc)⟩, rfl, Nat.le_refl _⟩
  | tc :: tcs, hfree => by
    rw [allUnionFree, Bool.and_eq_true] at hfree
    exact under tc hfree.1

theorem under_members : (tcs : List CTypeCode) → allUnionFree tcs = true →
    List.Forall₂ Piece.Under (tcs.map storedPart) (tcs.map laidPart)
  | [], _ => .nil
  | tc :: tcs, hfree => by
    rw [allUnionFree, Bool.and_eq_true] at hfree
    exact .cons (under tc hfree.1) (under_members tcs hfree.2)

end

/-! ### When it is stored where it belongs -/

mutual

theorem stored_iff_tight : (tc : CTypeCode) → unionFree tc = true →
    ((storedPart tc).cells = (laidPart tc).cells ↔ tight tc = true)
  | .node info subtypes discriminator, hfree => by
    have hsub : allUnionFree subtypes = true := (Bool.and_eq_true _ _ ▸ unionFree.eq_1 _ _ _ ▸ hfree).2
    have hrecord : info.kind = .struct ∨ info.kind = .except →
        ((storedPart (.node info subtypes discriminator)).cells =
          (laidPart (.node info subtypes discriminator)).cells ↔ tightMembers 0 0 subtypes = true) := by
      intro hk
      rw [storedPart_record hk hsub, laidPart_record hk, place_eq_iff (under_members subtypes hsub)]
      exact alike_iff_tightMembers subtypes hsub 0 0
    cases hk : info.kind with
    | struct => simp only [hrecord (.inl hk), tight, hk]
    | except => simp only [hrecord (.inr hk), tight, hk]
    | array =>
      have hhead := under_head subtypes hsub
      have halign : (headPart subtypes).align = headAlignment subtypes :=
        congrArg Prod.fst (headPart_extent subtypes)
      have hsize : (headPart subtypes).size = gatherHead subtypes :=
        congrArg Prod.snd (headPart_extent subtypes)
      rw [storedPart_array hk hsub, laidPart_array hk, place_eq_iff (forall₂_replicate hhead _),
        alike_replicate hhead.sound'.pos (by rw [halign, hsize]; exact headAlignment_dvd_gather subtypes)
          rfl, stored_iff_tightHead subtypes hsub, halign, hsize]
      simp [tight, hk, headReach_eq, Piece.extent, or_assoc]
    | «alias» =>
      rw [storedPart_alias hk hsub, laidPart_alias hk, stored_iff_tightHead subtypes hsub]
      simp only [tight, hk]
    | union => simp [unionFree, hk] at hfree
    | _ =>
      have hplain : plain info.kind = true := by rw [hk]; rfl
      rw [storedPart_plain hplain, laidPart_plain hplain, tight_plain hplain]
      simp [defaultOf, TCKind.sizeof, hk]

theorem stored_iff_tightHead : (tcs : List CTypeCode) → allUnionFree tcs = true →
    ((storedHead tcs).cells = (headPart tcs).cells ↔ tightHead tcs = true)
  | [], _ => ⟨fun _ => rfl, fun _ => rfl⟩
  | tc :: tcs, hfree => by
    rw [allUnionFree, Bool.and_eq_true] at hfree
    exact stored_iff_tight tc hfree.1

theorem alike_iff_tightMembers : (tcs : List CTypeCode) → allUnionFree tcs = true → ∀ near far,
    (Alike near far (tcs.map storedPart) (tcs.map laidPart) ↔ tightMembers near far tcs = true)
  | [], _, near, far => ⟨fun _ => rfl, fun _ => trivial⟩
  | tc :: tcs, hfree, near, far => by
    rw [allUnionFree, Bool.and_eq_true] at hfree
    rw [List.map_cons, List.map_cons, Alike, tightMembers, Bool.and_eq_true,
      stored_iff_tight tc hfree.1, alike_iff_tightMembers tcs hfree.2]
    simp [laidPart, storedPart]

end

theorem built_iff {tc : CTypeCode} (hfree : unionFree tc = true) :
    Built tc ↔ tc.gatherAllocInfo < 2^32 ∧ tight tc = true := by
  have hshift : ∀ value, 8 ∣ value →
      (initDefault tc value).1 = shift value (storedPart tc).cells := fun value hvalue => by
    rw [initDefault_fills tc hfree]
    change shift (alignUp value tc.findCAlignment) _ = _
    rw [alignUp_eq_of_dvd tc.findCAlignment_pos (tc.findCAlignment_dvd_eight.trans hvalue)]
  rw [← stored_iff_tight tc hfree]
  constructor
  · intro h
    refine ⟨?_, ?_⟩
    · rw [← h.block]
      exact Nat.mod_lt _ (by omega)
    · have hzero := h.stored 0 (Nat.dvd_zero 8)
      rw [hshift 0 (Nat.dvd_zero 8)] at hzero
      exact shift_inj hzero
  · rintro ⟨hlt, hcells⟩
    refine ⟨fun value hvalue => ?_, Nat.mod_eq_of_lt hlt⟩
    rw [hshift value hvalue, hcells]
    rfl

/-! ### Components -/

/-- A sequence in memory. -/
structure SequenceHeader where
  length : Nat
  buffer : Nat

/-- The sequences in memory, by address; their buffers come from the allocator. -/
structure Memory where
  sequenceAt : Nat → SequenceHeader
  aligned : ∀ a, 8 ∣ (sequenceAt a).buffer

/-- A DynAny: `any->_type`, `any->_value` and `idx`. -/
structure DynAny where
  type : CTypeCode
  value : Nat
  idx : Int
  aligned : type.findCAlignment ∣ value

/-- What an operation does instead of giving a component. -/
inductive Stop where
  /-- `g_error`, or an assertion that fails -/
  | aborted
  /-- memory behind the end of `subtypes` is read -/
  | wild
  | nil
  | typeMismatch
  | badParam
  deriving DecidableEq

def componentCount (mem : Memory) (d : DynAny) : Except Stop Nat :=
  let tc := d.type.skipAlias
  match tc.kind with
  | .sequence => .ok (if d.value = 0 then 0 else (mem.sequenceAt d.value).length)
  | .array => .ok tc.info.length
  | .struct | .except => .ok tc.subtypes.length
  | .union => .ok 0
  | kind => if Dynamic.single kind then .ok 0 else .error .aborted

/-- `DynamicAny_DynAny_seek`, for an index that is a `CORBA_long`. -/
def seek (mem : Memory) (d : DynAny) (index : Int) : Except Stop (DynAny × Bool) :=
  let tc := d.type.skipAlias
  let within (found : Prop) [Decidable found] : Except Stop (DynAny × Bool) :=
    .ok (if found then ({ d with idx := index }, true) else ({ d with idx := -1 }, false))
  match tc.kind with
  | .array => within (index < tc.info.length ∧ 0 ≤ index)
  | .struct | .except => within (index < tc.subtypes.length ∧ 0 ≤ index)
  -- the index is compared as an unsigned number
  | .sequence => within (d.value ≠ 0 ∧ index % 2^32 < (mem.sequenceAt d.value).length)
  | .union => within (0 ≤ index ∧ index ≤ 1)
  | kind => if Dynamic.single kind then .ok ({ d with idx := -1 }, index = -1) else .error .aborted

/-- The loop of `dynany_get_value` over the members. -/
@[grind =] def memberAddress (value : Nat) : List CTypeCode → Nat → Except Stop Nat
  | [], _ => .error .wild
  | tc :: _, 0 => .ok (alignUp value tc.findCAlignment)
  | tc :: tcs, idx + 1 => memberAddress (alignUp value tc.findCAlignment + tc.gatherAllocInfo) tcs idx

/-- `dynany_get_value`; 0 is `NULL`, with an exception. -/
def getValue (mem : Memory) (type : CTypeCode) (value : Nat) (idx : Int) : Except Stop Nat :=
  let tc := type.skipAlias
  if Dynamic.single tc.kind then .ok value
  else if idx < 0 then .ok 0
  else
    match tc.kind with
    | .sequence =>
        let s := mem.sequenceAt value
        .ok (if value = 0 ∨ s.length ≤ idx.toNat then 0
          else s.buffer + tc.element.gatherAllocInfo * idx.toNat)
    | .array => .ok (value + tc.element.gatherAllocInfo * idx.toNat)
    | .struct | .except => memberAddress value tc.subtypes idx.toNat
    | _ => .ok 0

/-- `dynany_get_cur_type` -/
def getCurType (d : DynAny) : Option CTypeCode :=
  let tc := d.type.skipAlias
  match tc.kind with
  | .sequence | .array => some tc.element
  | .struct | .except => if 0 ≤ d.idx then tc.subtypes[d.idx.toNat]? else none
  | .union => if d.idx = 0 then tc.discriminator else none
  | kind => if Dynamic.single kind then some tc else none

/-- `DynamicAny_DynAny_current_component`: the type and the address of the new DynAny. -/
def currentComponent (mem : Memory) (d : DynAny) : Except Stop (CTypeCode × Nat) :=
  let tc := d.type.skipAlias
  if d.idx < 0 then .error .nil
  else if tc.kind = .enum ∨ (tc.kind = .except ∧ tc.subtypes = []) then .error .typeMismatch
  else if Dynamic.single tc.kind ∨ Dynamic.composite tc.kind ∨ tc.kind = .union then do
    let value ← getValue mem d.type d.value d.idx
    match getCurType d with
    | none => .error .badParam
    | some type => if value = 0 then .error .aborted else .ok (type, value)
  else .error .aborted

/-! ### Where they are -/

@[grind =] def memberOffsets (sum : Nat) : List CTypeCode → List (CTypeCode × Nat)
  | [] => []
  | tc :: tcs =>
      (tc, alignUp sum tc.findCAlignment) ::
        memberOffsets (alignUp sum tc.findCAlignment + tc.gatherAllocInfo) tcs

def elements (tc : CTypeCode) (value n : Nat) : List (CTypeCode × Nat) :=
  (List.range n).map fun i => (tc, value + tc.gatherAllocInfo * i)

/-- The components of a value and their addresses. -/
def components (mem : Memory) (type : CTypeCode) (value : Nat) : List (CTypeCode × Nat) :=
  let tc := type.skipAlias
  match tc.kind with
  | .sequence =>
      if value = 0 then []
      else elements tc.element (mem.sequenceAt value).buffer (mem.sequenceAt value).length
  | .array => elements tc.element value tc.info.length
  | .struct | .except => (memberOffsets 0 tc.subtypes).map fun c => (c.1, value + c.2)
  | _ => []

/-- Every index below the count leads to the component that it is of. -/
def Navigates (mem : Memory) (d : DynAny) : Prop :=
  ∀ n, componentCount mem d = .ok n → ∀ index : Nat, index < n → index < 2^31 →
    ∃ c, (components mem d.type d.value)[index]? = some c ∧ c.1.findCAlignment ∣ c.2 ∧
      (∃ d', seek mem d index = .ok (d', true) ∧ currentComponent mem d' = .ok c) ∧
      (Dynamic.single c.1.skipAlias.kind = true → ∀ idx, getValue mem c.1 c.2 idx = .ok c.2)

section
variable {mem : Memory} {d : DynAny} {c : CTypeCode × Nat} {index : Nat}

theorem elements_getElem? {tc : CTypeCode} {value n : Nat} (h : (elements tc value n)[index]? = some c) :
    index < n ∧ c = (tc, value + tc.gatherAllocInfo * index) := by
  obtain ⟨hlt, heq⟩ := List.getElem?_eq_some_iff.mp h
  simp only [elements, List.length_map, List.length_range] at hlt
  simp only [elements, List.getElem_map, List.getElem_range] at heq
  exact ⟨hlt, heq.symm⟩

theorem memberAddress_eq {tcs : List CTypeCode} {value sum : Nat} (hvalue : widestAlignment tcs ∣ value)
    (h : (memberOffsets sum tcs)[index]? = some c) :
    memberAddress (value + sum) tcs index = .ok (value + c.2) ∧ tcs[index]? = some c.1 ∧
      c.1.findCAlignment ∣ value + c.2 := by
  induction tcs generalizing sum index with
  | nil => cases h
  | cons tc tcs ih =>
    have hboth := dvd_max_of_dvd_eight tc.findCAlignment_dvd_eight (widestAlignment_dvd_eight tcs)
    rw [widestAlignment] at hvalue
    have halign : alignUp (value + sum) tc.findCAlignment = value + alignUp sum tc.findCAlignment := by
      rw [Nat.add_comm, alignUp_add_of_dvd tc.findCAlignment_pos (hboth.1.trans hvalue), Nat.add_comm]
    cases index with
    | zero =>
      cases Option.some.inj h
      refine ⟨congrArg Except.ok halign, rfl, ?_⟩
      rw [← halign]
      exact dvd_alignUp _ _
    | succ index =>
      rw [memberAddress, halign, Nat.add_assoc]
      exact ih (hboth.2.1.trans hvalue) h

theorem length_memberOffsets (sum : Nat) (tcs : List CTypeCode) :
    (memberOffsets sum tcs).length = tcs.length := by
  induction tcs generalizing sum with
  | nil => rfl
  | cons tc tcs ih => exact congrArg Nat.succ (ih _)

theorem componentCount_eq {n : Nat} (h : componentCount mem d = .ok n) :
    n = (components mem d.type d.value).length := by
  unfold componentCount at h
  unfold components
  cases hk : d.type.skipAlias.kind with
  | sequence =>
    simp only [hk, Except.ok.injEq] at h ⊢
    rw [← h]
    split
    · rfl
    · simp [elements]
  | array =>
    simp only [hk, Except.ok.injEq] at h ⊢
    simp [← h, elements]
  | struct =>
    simp only [hk, Except.ok.injEq] at h ⊢
    simp [← h, length_memberOffsets]
  | except =>
    simp only [hk, Except.ok.injEq] at h ⊢
    simp [← h, length_memberOffsets]
  | _ =>
    simp only [hk, Dynamic.single] at h ⊢
    first
    | exact (Except.ok.inj h).symm
    | cases h

/-- The index of a component leads to it. -/
theorem seek_component (hlt : index < 2^31) (h : (components mem d.type d.value)[index]? = some c) :
    seek mem d index = .ok ({ d with idx := index }, true) ∧
      Dynamic.composite d.type.skipAlias.kind = true ∧
      ¬ (d.type.skipAlias.kind = .except ∧ d.type.skipAlias.subtypes = []) ∧
      getCurType { d with idx := index } = some c.1 ∧
      getValue mem d.type d.value index = .ok c.2 ∧ c.1.findCAlignment ∣ c.2 := by
  have haligned : d.type.skipAlias.findCAlignment ∣ d.value := by
    rw [findCAlignment_skipAlias]
    exact d.aligned
  have hnonneg : ¬ (index : Int) < 0 := by omega
  have hrecord : d.type.skipAlias.kind = .struct ∨ d.type.skipAlias.kind = .except →
      (components mem d.type d.value)[index]? =
        ((memberOffsets 0 d.type.skipAlias.subtypes).map fun c => (c.1, d.value + c.2))[index]? →
      memberAddress d.value d.type.skipAlias.subtypes index = .ok c.2 ∧
        d.type.skipAlias.subtypes[index]? = some c.1 ∧ c.1.findCAlignment ∣ c.2 := by
    intro hk hcomponents
    rw [hcomponents, List.getElem?_map] at h
    obtain ⟨⟨tc, off⟩, hoff, rfl⟩ := Option.map_eq_some_iff.mp h
    rw [findCAlignment_record hk] at haligned
    exact memberAddress_eq haligned hoff
  cases hk : d.type.skipAlias.kind with
  | struct =>
    obtain ⟨haddress, htype, hdvd⟩ := hrecord (.inl hk) (by simp only [components, hk])
    have hindex := (List.getElem?_eq_some_iff.mp htype).1
    refine ⟨?_, rfl, by simp, ?_, ?_, hdvd⟩
    · simp [seek, hk, hindex]
    · simp [getCurType, hk, htype]
    · simp [getValue, hk, Dynamic.single, hnonneg, haddress]
  | except =>
    obtain ⟨haddress, htype, hdvd⟩ := hrecord (.inr hk) (by simp only [components, hk])
    have hindex := (List.getElem?_eq_some_iff.mp htype).1
    refine ⟨?_, rfl, fun h => by simp [h.2] at hindex, ?_, ?_, hdvd⟩
    · simp [seek, hk, hindex]
    · simp [getCurType, hk, htype]
    · simp [getValue, hk, Dynamic.single, hnonneg, haddress]
  | array =>
    have hcomponents : components mem d.type d.value =
        elements d.type.skipAlias.element d.value d.type.skipAlias.info.length := by
      simp only [components, hk]
    rw [hcomponents] at h
    obtain ⟨hindex, rfl⟩ := elements_getElem? h
    rw [findCAlignment_array hk] at haligned
    refine ⟨?_, rfl, by simp, ?_, ?_, ?_⟩
    · simp [seek, hk, hindex]
    · simp [getCurType, hk]
    · simp [getValue, hk, Dynamic.single, hnonneg]
    · exact Nat.dvd_add haligned ((findCAlignment_dvd_gather _).mul_right _)
  | sequence =>
    have hcomponents : components mem d.type d.value =
        if d.value = 0 then []
        else elements d.type.skipAlias.element (mem.sequenceAt d.value).buffer
          (mem.sequenceAt d.value).length := by
      simp only [components, hk]
    rw [hcomponents] at h
    by_cases hvalue : d.value = 0
    · rw [if_pos hvalue] at h
      cases h
    rw [if_neg hvalue] at h
    obtain ⟨hindex, rfl⟩ := elements_getElem? h
    have hmod : (index : Int) % 4294967296 = index := Int.emod_eq_of_lt (by omega) (by omega)
    refine ⟨?_, rfl, by simp, ?_, ?_, ?_⟩
    · simp [seek, hk, hindex, hvalue, hmod]
    · simp [getCurType, hk]
    · simp [getValue, hk, Dynamic.single, hnonneg, hvalue, Nat.not_le.mpr hindex]
    · exact Nat.dvd_add ((findCAlignment_dvd_eight _).trans (mem.aligned _))
        ((findCAlignment_dvd_gather _).mul_right _)
  | _ =>
    have hcomponents : components mem d.type d.value = [] := by simp only [components, hk]
    rw [hcomponents] at h
    cases h

theorem currentComponent_component (hlt : index < 2^31)
    (h : (components mem d.type d.value)[index]? = some c) :
    ∃ d', seek mem d index = .ok (d', true) ∧
      currentComponent mem d' = if c.2 = 0 then .error .aborted else .ok c := by
  obtain ⟨hseek, hcomposite, hexcept, htype, haddress, -⟩ := seek_component hlt h
  have henum : d.type.skipAlias.kind ≠ .enum := fun hk => by
    rw [hk] at hcomposite
    cases hcomposite
  refine ⟨_, hseek, ?_⟩
  have hnonneg : ¬ (index : Int) < 0 := by omega
  rw [currentComponent]
  simp only [hnonneg, if_false, henum, false_or, hexcept, hcomposite, true_or, or_true, if_true,
    haddress, htype, Outcomes.ok_bind]

theorem navigates_iff : Navigates mem d ↔
    ∀ n, componentCount mem d = .ok n →
      ∀ c ∈ (components mem d.type d.value).take (2^31), c.2 ≠ 0 := by
  constructor
  · intro h n hn c hc hzero
    obtain ⟨index, hindex⟩ := List.mem_iff_getElem?.mp hc
    obtain ⟨hlt, hat⟩ : index < 2^31 ∧ (components mem d.type d.value)[index]? = some c := by
      rw [List.getElem?_take] at hindex
      split at hindex
      · next hlt => exact ⟨hlt, hindex⟩
      · cases hindex
    have hcount := componentCount_eq hn
    have hbound := (List.getElem?_eq_some_iff.mp hat).1
    obtain ⟨c', hc', -, ⟨d', hseek, hcurrent⟩, -⟩ := h n hn index (by omega) hlt
    cases hat.symm.trans hc'
    obtain ⟨d₁, hseek₁, hcurrent₁⟩ := currentComponent_component hlt hat
    cases hseek.symm.trans hseek₁
    rw [hcurrent, if_pos hzero] at hcurrent₁
    cases hcurrent₁
  · intro h n hn index hindex hlt
    have hcount := componentCount_eq hn
    obtain ⟨c, hat⟩ : ∃ c, (components mem d.type d.value)[index]? = some c :=
      ⟨_, List.getElem?_eq_getElem (by omega)⟩
    have hne : c.2 ≠ 0 := by
      refine h n hn c (List.mem_iff_getElem?.mpr ⟨index, ?_⟩)
      rw [List.getElem?_take, if_pos hlt, hat]
    obtain ⟨d', hseek, hcurrent⟩ := currentComponent_component hlt hat
    obtain ⟨-, -, -, -, -, hdvd⟩ := seek_component hlt hat
    refine ⟨c, hat, hdvd, ⟨d', hseek, by rw [hcurrent, if_neg hne]⟩, fun hsingle idx => ?_⟩
    rw [getValue, if_pos hsingle]

end

def structOf (members : List CTypeCode) : CTypeCode :=
  .node ⟨.struct, 0, [], [], [], [], -1, 0, 0⟩ members none

def emptyMemory : Memory := ⟨fun _ => ⟨0, 0⟩, fun _ => Nat.dvd_zero 8⟩

end ORBit2.DefaultLayout
