import ORBit2.Base.Traversal
import ORBit2.RunTimeTypeCodes

/-! The TypeCodes that the run-time IDL module builds from the syntax tree
(`ORBit_imodule_get_typecode`), and when they are equal to the static ones of the compiler. -/

set_option autoImplicit false

namespace ORBit2
open Words AlignedTypeCode Traversal

/-! ### The run-time IDL module

A name stands for its definition: the table of the module has one TypeCode for each repository
id. `c_align`, which is set afterwards, stays zero. -/

/-- `ORBit_imodule_jam_int`: the word that is stored; `none` is an assertion. -/
def jamInt (src : Const) (tc : AlignedTypeCode) : Option Nat :=
  let val : Option Int :=
    match src with
    | .boolean value => some (if value then 1 else 0)
    | .char value => some (signed 1 value.toNat)
    | .integer value => some (signed 4 (unsigned 4 value))
    | _ => none
  match tc.info.kind with
  | .boolean | .char | .octet => val.map (unsigned 1)
  | .short | .ushort => val.map (unsigned 2)
  | .long | .ulong => val.map (unsigned 4)
  | _ => none

/-- The names of enumerators are compared octet by octet. -/
local instance subnames_lawful : LawfulBEq (List UInt8) := inferInstance

/-- `ORBit_imodule_setup_label_any`: the type and the value of the label. -/
def setupLabelAny (tc : AlignedTypeCode) : Option Const → Option (AlignedTypeCode × Nat)
  | none => some (staticTc .octet "octet", unsigned 1 (-1))
  | some (.ident str) =>
      if tc.info.kind = .enum ∧ str ∈ tc.info.subnames then
        some (tc, tc.info.subnames.idxOf str)
      else none
  | some (.wideChar _) => none
  | some src => (jamInt src tc).map fun value => (tc, value)

section Imodule
variable (nodeText : Ident → List UInt8)

/-- What the module takes for the name of a declarator: where it has sizes, the node of its
identifier is read as if it were the text. -/
def imoduleName : Declarator → List UInt8
  | .ident name => name.str
  | .array name _ => nodeText name

/-- The arrays and the alias of a declarator with sizes. -/
@[grind =] def createArrays (subtc : AlignedTypeCode) : List Nat → AlignedTypeCode
  | [] => subtc
  | size :: sizes => createArrayTc size (createArrays subtc sizes)

/-- `ORBit_imodule_get_union_members`, for the labels of one arm. -/
def labelMembers (switchtc : AlignedTypeCode) (name : List UInt8) (subtc : AlignedTypeCode)
    (labels : List (Option Const)) : Option (List UnionMember) :=
  labels.mapM fun label => do
    let (type, value) ← setupLabelAny switchtc label
    some ⟨name, type, value, subtc⟩

mutual

/-- `ORBit_imodule_get_typecode`; `none` is an assertion. A sequence of the type in whose
definition it stands is looked up before that type is entered in the table. -/
@[grind =] def imoduleTypeCode : IdlType → Option AlignedTypeCode
  | .any => some (staticTc .any "any")
  | .float .float => some (staticTc .float "float")
  | .float .double => some (staticTc .double "double")
  | .float .longdouble => some (staticTc .longdouble "long_double")
  | .integer false .short => some (staticTc .ushort "unsigned_short")
  | .integer false .longlong => some (staticTc .ulonglong "unsigned_long_long")
  | .integer false .long => some (staticTc .ulong "unsigned_long")
  | .integer true .short => some (staticTc .short "short")
  | .integer true .longlong => some (staticTc .longlong "long_long")
  | .integer true .long => some (staticTc .long "long")
  | .string _ => some (staticTc .string "string")
  | .wideString _ => some (staticTc .wstring "wstring")
  | .octet => some (staticTc .octet "octet")
  | .char => some (staticTc .char "char")
  | .wideChar => some (staticTc .wchar "wchar")
  | .boolean => some (staticTc .boolean "boolean")
  | .struct ident members => do
      let members ← imoduleMembers members
      some (createStructTc ident.repoId ident.str members)
  | .except ident members => do
      let members ← imoduleMembers members
      some (createExceptionTc ident.repoId ident.str members)
  | .union ident switch body => do
      let switchtc ← imoduleTypeCode switch
      let members ← imoduleArms switchtc body
      createUnionTc ident.repoId ident.str switchtc members
  | .enum ident enumerators => some (createEnumTc ident.repoId ident.str enumerators)
  | .sequence element bound => do
      let subtc ← imoduleTypeCode element
      some (createSequenceTc (bound.getD 0) subtc)
  | .recursiveSequence _ _ => none
  | .interface ident _ => some (createInterfaceTc ident.repoId ident.str)
  | .object => some (staticTc .objref "Object")
  | .typeCode => some (staticTc .typeCode "TypeCode")
  | .typedef (.ident name) type => do
      let subtc ← imoduleTypeCode type
      some (createAliasTc name.repoId name.str subtc)
  | .typedef (.array name sizes) type => do
      let subtc ← imoduleTypeCode type
      some (createAliasTc name.repoId name.str (createArrays subtc sizes))

/-- `ORBit_imodule_get_struct_members`. -/
@[grind =] def imoduleMembers : List Member → Option (List StructMember)
  | [] => some []
  | .mk type dcl dcls :: members => do
      let subtc ← imoduleTypeCode type
      let rest ← imoduleMembers members
      some ((dcl :: dcls).map (fun dcl => ⟨imoduleName nodeText dcl, subtc⟩) ++ rest)

/-- `ORBit_imodule_get_union_members`. -/
@[grind =] def imoduleArms (switchtc : AlignedTypeCode) : List CaseStmt → Option (List UnionMember)
  | [] => some []
  | .mk label labels type dcl :: body => do
      let subtc ← imoduleTypeCode type
      let members ← labelMembers switchtc (imoduleName nodeText dcl) subtc (label :: labels)
      let rest ← imoduleArms switchtc body
      some (members ++ rest)

end
end Imodule

/-! ### Agreement -/

mutual

/-- The same names, of the types and of their members, at every node. -/
@[grind =] def CTypeCode.SameNames : CTypeCode → CTypeCode → Prop
  | .node info subtypes discriminator, .node info' subtypes' discriminator' =>
      info.name = info'.name ∧ info.subnames = info'.subnames ∧
        CTypeCode.AllSameNames subtypes subtypes' ∧
        CTypeCode.DiscriminatorSameNames discriminator discriminator'

@[grind =] def CTypeCode.AllSameNames : List CTypeCode → List CTypeCode → Prop
  | [], [] => True
  | tc :: tcs, tc' :: tcs' => CTypeCode.SameNames tc tc' ∧ CTypeCode.AllSameNames tcs tcs'
  | _, _ => False

@[grind =] def CTypeCode.DiscriminatorSameNames : Option CTypeCode → Option CTypeCode → Prop
  | none, none => True
  | some tc, some tc' => CTypeCode.SameNames tc tc'
  | _, _ => False

end

/-- `CORBA_TypeCode_equal` accepts the two TypeCodes, and their names, which it does not look
at, are the same as well. -/
def TypeCodesAgree (tc tc' : CTypeCode) : Prop := tc.equal tc' = some true ∧ tc.SameNames tc'

/-- The label of a union, as the compiler reads it, survives being stored in the switch type
and read back; `default` is written in two ways, and the module takes the labels of an octet
for it. -/
def keepsLabel (switch : IdlType) : Option Const → Prop
  | none => False
  | some label =>
      match switch with
      | .octet => False
      | .char | .boolean =>
          0 ≤ Const.cLabel switch (some label) ∧ Const.cLabel switch (some label) < 256
      | .integer _ .short =>
          -32768 ≤ Const.cLabel switch (some label) ∧ Const.cLabel switch (some label) < 32768
      | _ => Const.cLabel switch (some label) < 2^31

/-- The interface `Object` itself. -/
def IdlType.isObject : IdlType → Prop
  | .interface ident _ =>
      ident.repoId = ascii ("IDL:omg.org/CORBA/" ++ "Object" ++ ":1.0") ∧ ident.str = ascii "Object"
  | _ => False

section
variable (emitted : List UInt8 → Nat) (nodeText : Ident → List UInt8)

mutual

/-- What the two translators treat alike: the sequences have the bound of the sequence that is
emitted for their name, the unions keep their labels and have no `default`, the members have no
sizes, and no interface is replaced by `Object` for its declspec. -/
@[grind =] def IdlType.agreeing : IdlType → Prop
  | .struct _ members | .except _ members => membersAgreeing members
  | .union _ switch body =>
      switch.agreeing ∧ (∀ label ∈ caseLabels body, keepsLabel switch label) ∧ armsAgreeing body
  | .sequence element bound =>
      emitted (IdlType.sequence element bound).typespecStr = bound.getD 0 ∧
        if element.interfaceDeclspec.any fun d => d.pidl || d.other then element.isObject
        else element.agreeing
  | .typedef _ type => type.agreeing
  | _ => True

@[grind =] def membersAgreeing : List Member → Prop
  | [] => True
  | .mk type dcl dcls :: members =>
      ((if type.interfaceDeclspec.any Declspec.pidl then type.isObject else type.agreeing) ∧
          ∀ d ∈ dcl :: dcls, imoduleName nodeText d = d.name.str) ∧
        membersAgreeing members

@[grind =] def armsAgreeing : List CaseStmt → Prop
  | [] => True
  | .mk _ _ type dcl :: body =>
      (type.agreeing ∧ imoduleName nodeText dcl = dcl.name.str) ∧ armsAgreeing body

end
end

/-! ### Nodes -/

namespace CTypeCode

theorem equivMembers_iff {tcs tcs' : List CTypeCode} (h : tcs.length = tcs'.length) :
    equivMembers true tcs tcs' = some true ↔
      List.Forall₂ (fun tc tc' => tc.equal tc' = some true) tcs tcs' := by
  induction tcs generalizing tcs' with
  | nil =>
    rw [List.length_eq_zero_iff.1 h.symm]
    simp [equivMembers]
  | cons tc tcs ih =>
    cases tcs' with
    | nil => cases h
    | cons tc' tcs' =>
      rw [equivMembers, List.forall₂_cons, ← ih (Nat.succ.inj h), equal]
      split
      · next he => simp [he]
      · next he => exact ⟨fun h => absurd h he, fun h => absurd h.1 he⟩

theorem equivArms_iff {tcs tcs' : List CTypeCode} {labels labels' : List Int}
    (h : tcs.length = tcs'.length) (hl : labels.length = tcs.length)
    (hl' : labels'.length = tcs'.length) :
    equivArms true tcs labels tcs' labels' = some true ↔
      List.Forall₂ (fun tc tc' => tc.equal tc' = some true) tcs tcs' ∧ labels = labels' := by
  induction tcs generalizing tcs' labels labels' with
  | nil =>
    rw [List.length_eq_zero_iff.1 h.symm] at hl' ⊢
    rw [List.length_eq_zero_iff.1 hl, List.length_eq_zero_iff.1 hl']
    simp [equivArms]
  | cons tc tcs ih =>
    cases tcs' with
    | nil => cases h
    | cons tc' tcs' =>
      cases labels with
      | nil => cases hl
      | cons label labels =>
        cases labels' with
        | nil => cases hl'
        | cons label' labels' =>
          have ih := ih (Nat.succ.inj h) (Nat.succ.inj hl) (Nat.succ.inj hl')
          rw [equivArms, List.forall₂_cons, List.cons.injEq, equal]
          split
          · next he =>
            by_cases hlabel : label = label'
            · rw [if_neg (not_not_intro hlabel), ih]
              simp [he, hlabel]
            · rw [if_pos hlabel]
              simp [hlabel]
          · next he => exact ⟨fun h => absurd h he, fun h => absurd h.1.1 he⟩

theorem allSameNames_iff {tcs tcs' : List CTypeCode} :
    AllSameNames tcs tcs' ↔ List.Forall₂ SameNames tcs tcs' := by
  induction tcs generalizing tcs' with
  | nil => cases tcs' <;> simp [AllSameNames]
  | cons tc tcs ih =>
    cases tcs' with
    | nil => simp [AllSameNames]
    | cons tc' tcs' => rw [AllSameNames, List.forall₂_cons, ih]

theorem forall₂_and {α β : Type} {R S : α → β → Prop} {l : List α} {l' : List β} :
    List.Forall₂ (fun a b => R a b ∧ S a b) l l' ↔ List.Forall₂ R l l' ∧ List.Forall₂ S l l' := by
  constructor
  · intro h
    exact ⟨h.imp fun _ _ => And.left, h.imp fun _ _ => And.right⟩
  · rintro ⟨h, h'⟩
    induction h with
    | nil => exact .nil
    | cons hab _ ih =>
      cases h' with
      | cons hab' h' => exact .cons ⟨hab, hab'⟩ (ih h')

/-- Two structs or exceptions of one type. -/
theorem agree_members {kind : TCKind} (hk : kind = .struct ∨ kind = .except)
    {info info' : TCInfo} (hi : info.kind = kind) (hi' : info'.kind = kind)
    (hr : info.repoId = info'.repoId) (hn : info.name = info'.name) {tcs tcs' : List CTypeCode}
    (h : tcs.length = tcs'.length) :
    TypeCodesAgree (.node info tcs none) (.node info' tcs' none) ↔
      info.subnames = info'.subnames ∧ List.Forall₂ TypeCodesAgree tcs tcs' := by
  have hequal : (node info tcs none).equal (node info' tcs' none) = equivMembers true tcs tcs' := by
    rw [equal, typecodeEquivInternal, if_neg (by simp)]
    simp only [if_true, hi, hi', hr, ne_eq, not_true_eq_false, if_false, h, or_self]
    rcases hk with rfl | rfl <;> rfl
  rw [TypeCodesAgree, hequal, equivMembers_iff h, SameNames, DiscriminatorSameNames, allSameNames_iff]
  have hand := @forall₂_and _ _ (fun tc tc' : CTypeCode => tc.equal tc' = some true) SameNames tcs tcs'
  change _ ↔ _ ∧ List.Forall₂ (fun tc tc' => tc.equal tc' = some true ∧ tc.SameNames tc') tcs tcs'
  rw [hand]
  simp only [hn]
  tauto

/-- Two sequences or arrays. -/
theorem agree_element {kind : TCKind} (hk : kind = .sequence ∨ kind = .array) {info info' : TCInfo}
    (hi : info.kind = kind) (hi' : info'.kind = kind) (hn : info.name = info'.name)
    (hs : info.subnames = info'.subnames) (tc tc' : CTypeCode) :
    TypeCodesAgree (.node info [tc] none) (.node info' [tc'] none) ↔
      info.length = info'.length ∧ TypeCodesAgree tc tc' := by
  have hequal : (node info [tc] none).equal (node info' [tc'] none) =
      if info.length ≠ info'.length then some false else equivMembers true [tc] [tc'] := by
    rw [equal, typecodeEquivInternal, if_neg (by simp)]
    simp only [if_true, hi, hi', ne_eq, not_true_eq_false, if_false]
    rcases hk with rfl | rfl <;> simp
  rw [TypeCodesAgree, hequal, SameNames, DiscriminatorSameNames, AllSameNames, AllSameNames, TypeCodesAgree]
  by_cases hl : info.length = info'.length
  · have hone : [tc].length = [tc'].length := rfl
    rw [if_neg (not_not_intro hl), equivMembers_iff hone]
    simp [hn, hs, hl]
  · rw [if_pos hl]
    simp [hl]

/-- Two aliases of one name. -/
theorem agree_alias {info info' : TCInfo} (hi : info.kind = .alias) (hi' : info'.kind = .alias)
    (hr : info.repoId = info'.repoId) (hn : info.name = info'.name)
    (hs : info.subnames = info'.subnames) (tc tc' : CTypeCode) :
    TypeCodesAgree (.node info [tc] none) (.node info' [tc'] none) ↔ TypeCodesAgree tc tc' := by
  have hequal : (node info [tc] none).equal (node info' [tc'] none) =
      equivMembers true [tc] [tc'] := by
    rw [equal, typecodeEquivInternal, if_neg (by simp)]
    simp [hi, hi', hr]
  have hone : [tc].length = [tc'].length := rfl
  rw [TypeCodesAgree, hequal, SameNames, DiscriminatorSameNames, AllSameNames, AllSameNames, TypeCodesAgree,
    equivMembers_iff hone]
  simp [hn, hs]

/-- Two unions of one type. -/
theorem agree_union {info info' : TCInfo} (hi : info.kind = .union) (hi' : info'.kind = .union)
    (hr : info.repoId = info'.repoId) (hn : info.name = info'.name) {tcs tcs' : List CTypeCode}
    (h : tcs.length = tcs'.length) (hl : info.sublabels.length = tcs.length)
    (hl' : info'.sublabels.length = tcs'.length) (d d' : CTypeCode) :
    TypeCodesAgree (.node info tcs (some d)) (.node info' tcs' (some d')) ↔
      TypeCodesAgree d d' ∧ info.defaultIndex = info'.defaultIndex ∧ info.sublabels = info'.sublabels ∧
        info.subnames = info'.subnames ∧ List.Forall₂ TypeCodesAgree tcs tcs' := by
  have hequal : (node info tcs (some d)).equal (node info' tcs' (some d')) = some true ↔
      d.equal d' = some true ∧ info.defaultIndex = info'.defaultIndex ∧
        equivArms true tcs info.sublabels tcs' info'.sublabels = some true := by
    rw [equal, typecodeEquivInternal, if_neg (by simp)]
    simp only [if_true, hi, hi', hr, ne_eq, not_true_eq_false, if_false, h, or_self,
      equivDiscriminator, equal]
    split
    · next he =>
      by_cases hd : info.defaultIndex = info'.defaultIndex
      · simp [he, hd]
      · simp [hd]
    · next he => exact ⟨fun h => absurd h he, fun h => absurd h.1 he⟩
  have hand := @forall₂_and _ _ (fun tc tc' : CTypeCode => tc.equal tc' = some true) SameNames tcs tcs'
  change _ ↔ _ ∧ _ ∧ _ ∧ _ ∧
    List.Forall₂ (fun tc tc' => tc.equal tc' = some true ∧ tc.SameNames tc') tcs tcs'
  rw [TypeCodesAgree, hequal, equivArms_iff h hl hl', SameNames, DiscriminatorSameNames, allSameNames_iff,
    TypeCodesAgree, hand]
  simp only [hn]
  tauto

/-- A TypeCode without parts. -/
theorem agree_leaf {info info' : TCInfo} (hk : info.kind = info'.kind)
    (hl : info.kind ≠ .enum → info.length = info'.length)
    (hr : info.repoId = info'.repoId) (hs : info.subnames = info'.subnames)
    (hn : info.name = info'.name) (hd : info.digits = info'.digits) (hc : info.scale = info'.scale)
    (hno : info.kind ≠ .sequence ∧ info.kind ≠ .array ∧ info.kind ≠ .alias ∧ info.kind ≠ .union) :
    TypeCodesAgree (.node info [] none) (.node info' [] none) := by
  refine ⟨?_, ?_⟩
  · rw [equal, typecodeEquivInternal, if_neg (by simp)]
    simp only [if_true, ← hk, ← hr, ← hs, ← hd, ← hc, ne_eq, not_true_eq_false, if_false]
    cases hkind : info.kind <;> simp only [hkind, ne_eq, reduceCtorEq, not_false_eq_true,
      not_true_eq_false, forall_const, IsEmpty.forall_iff, and_self, and_true, true_and] at hl hno <;>
      simp [hl, equivMembers]
  · rw [SameNames, AllSameNames, DiscriminatorSameNames]
    exact ⟨hn, hs, trivial, trivial⟩

end CTypeCode

/-! ### Labels -/

/-- The label is stored in the any of the member. -/
def StoredLabel (switchtc : AlignedTypeCode) (label : Option Const) (member : UnionMember) : Prop :=
  setupLabelAny switchtc label = some (member.labelType, member.labelValue)

theorem skipOneAlias_of_ne {tc : AlignedTypeCode} (h : tc.info.kind ≠ .alias) :
    tc.skipOneAlias = tc := by
  obtain ⟨info, cAlign, subtypes, discriminator⟩ := tc
  have hk : info.kind ≠ .alias := h
  simp only [skipOneAlias]
  split
  · exact absurd ‹info.kind = .alias› hk
  · rfl

theorem cLabel_range (switch : IdlType) {label : Const} (h : ∀ str, label ≠ .ident str) :
    -2^31 ≤ Const.cLabel switch (some label) ∧ Const.cLabel switch (some label) < 2^31 := by
  cases label with
  | boolean value =>
    rw [Const.cLabel]
    cases value <;> simp
  | char value =>
    have hlt := UInt8.toNat_lt value
    rw [Const.cLabel]
    unfold signed
    split <;> omega
  | wideChar value =>
    rw [Const.cLabel]
    unfold signed
    split <;> omega
  | integer value =>
    have hlt := unsigned_lt 4 value
    rw [Const.cLabel]
    unfold signed
    split <;> omega
  | ident str => exact absurd rfl (h str)

/-- What is read back of a label that `ORBit_imodule_jam_int` has stored. -/
theorem copyCaseValue_jamInt {tc : AlignedTypeCode} {src : Const} {v : Nat} {x : Int}
    (switch : IdlType) (hj : jamInt src tc = some v) (hx : copyCaseValue tc v = some x) :
    (tc.info.kind = .octet ∨ tc.info.kind = .char ∨ tc.info.kind = .boolean) ∧
        x = Const.cLabel switch (some src) % 256 ∨
      (tc.info.kind = .short ∨ tc.info.kind = .ushort) ∧
        x = signed 2 (unsigned 2 (Const.cLabel switch (some src))) ∨
      (tc.info.kind = .long ∨ tc.info.kind = .ulong) ∧ x = Const.cLabel switch (some src) := by
  generalize hval : Const.cLabel switch (some src) = val
  have hv : jamInt src tc = match tc.info.kind with
      | .boolean | .char | .octet => some (unsigned 1 val)
      | .short | .ushort => some (unsigned 2 val)
      | .long | .ulong => some (unsigned 4 val)
      | _ => none := by
    cases src with
    | boolean value => rw [← hval]; rfl
    | char value => rw [← hval]; rfl
    | integer value => rw [← hval]; rfl
    | wideChar value => cases hk : tc.info.kind <;> simp [jamInt, hk] at hj
    | ident str => cases hk : tc.info.kind <;> simp [jamInt, hk] at hj
  have hident : ∀ str, src ≠ .ident str := by
    rintro str rfl
    cases hk : tc.info.kind <;> simp [jamInt, hk] at hj
  have hrange := cLabel_range switch hident
  rw [hval] at hrange
  have h1 := unsigned_lt 1 val
  have h2 : unsigned 2 val < 2^16 := unsigned_lt 2 val
  have h4 : unsigned 4 val < 2^32 := unsigned_lt 4 val
  rw [hv] at hj
  unfold copyCaseValue at hx
  cases hk : tc.info.kind <;> rw [hk] at hj <;> simp only [reduceCtorEq, Option.some.injEq] at hj <;>
    rw [skipOneAlias_of_ne (by rw [hk]; simp), hk] at hx <;>
    simp only [Option.some.injEq] at hx <;> subst hj <;> subst hx
  case boolean | char | octet =>
    refine .inl ⟨by simp, ?_⟩
    unfold unsigned at h1 ⊢
    omega
  case short | ushort =>
    refine .inr (.inl ⟨by simp, ?_⟩)
    rw [Nat.mod_eq_of_lt h2]
  case long | ulong =>
    refine .inr (.inr ⟨by simp, ?_⟩)
    rw [Nat.mod_eq_of_lt h4]
    exact signed_unsigned (.inr (.inr rfl)) (by omega) (by omega)

/-- The kind of the TypeCode of a type. -/
def IdlType.tcKind : IdlType → TCKind
  | .integer signed type => type.kind signed
  | .float type => type.kind
  | .char => .char
  | .wideChar => .wchar
  | .boolean => .boolean
  | .octet => .octet
  | .any => .any
  | .object | .interface _ _ => .objref
  | .typeCode => .typeCode
  | .string _ => .string
  | .wideString _ => .wstring
  | .enum _ _ => .enum
  | .struct _ _ => .struct
  | .except _ _ => .except
  | .union _ _ _ => .union
  | .sequence _ _ | .recursiveSequence _ _ => .sequence
  | .typedef _ _ => .alias

theorem createUnionTc_eq {id name : List UInt8} {switchtc tc : AlignedTypeCode}
    {members : List UnionMember} (h : createUnionTc id name switchtc members = some tc) :
    ∃ sublabels, List.Forall₂ (fun member x => copyCaseValue member.labelType member.labelValue =
        some x) members sublabels ∧
      tc = .node { allocate .union with
        name := name, repoId := id, length := members.length, subnames := members.map (·.name),
        sublabels := sublabels, defaultIndex := defaultIndexFrom 0 (-1) members }
        0 (members.map (·.type)) (some switchtc) := by
  obtain ⟨sublabels, hs, htc⟩ := Option.bind_eq_some_iff.1 h
  cases htc
  exact ⟨sublabels, forall₂_of_mapM hs, rfl⟩

theorem imoduleTypeCode_kind {nodeText : Ident → List UInt8} {type : IdlType} {tc : AlignedTypeCode}
    (h : imoduleTypeCode nodeText type = some tc) : tc.info.kind = type.tcKind := by
  cases type with
  | integer signed type =>
    cases signed <;> cases type <;> simp only [imoduleTypeCode, Option.some.injEq] at h <;>
      rw [← h] <;> rfl
  | float type => cases type <;> simp only [imoduleTypeCode, Option.some.injEq] at h <;> rw [← h] <;> rfl
  | struct ident members =>
    rw [imoduleTypeCode] at h
    obtain ⟨members', _, h⟩ := Option.bind_eq_some_iff.1 h
    cases h
    rfl
  | except ident members =>
    rw [imoduleTypeCode] at h
    obtain ⟨members', _, h⟩ := Option.bind_eq_some_iff.1 h
    cases h
    rfl
  | union ident switch body =>
    rw [imoduleTypeCode] at h
    obtain ⟨switchtc, _, h⟩ := Option.bind_eq_some_iff.1 h
    obtain ⟨members, _, h⟩ := Option.bind_eq_some_iff.1 h
    obtain ⟨sublabels, _, rfl⟩ := createUnionTc_eq h
    rfl
  | sequence element bound =>
    rw [imoduleTypeCode] at h
    obtain ⟨subtc, _, h⟩ := Option.bind_eq_some_iff.1 h
    cases h
    rfl
  | recursiveSequence element bound => simp [imoduleTypeCode] at h
  | typedef dcl type =>
    cases dcl <;> rw [imoduleTypeCode] at h <;>
      obtain ⟨subtc, _, h⟩ := Option.bind_eq_some_iff.1 h <;> cases h <;> rfl
  | _ =>
    simp only [imoduleTypeCode, Option.some.injEq] at h
    rw [← h]
    rfl

theorem keepsLabel_some (switch : IdlType) (label : Const) :
    keepsLabel switch (some label) ↔
      match switch.tcKind with
      | .octet => False
      | .char | .boolean =>
          0 ≤ Const.cLabel switch (some label) ∧ Const.cLabel switch (some label) < 256
      | .short | .ushort =>
          -32768 ≤ Const.cLabel switch (some label) ∧ Const.cLabel switch (some label) < 32768
      | _ => Const.cLabel switch (some label) < 2^31 := by
  cases switch with
  | integer signed type => cases signed <;> cases type <;> rfl
  | float type => cases type <;> rfl
  | _ => rfl

theorem signed_unsigned_two {n : Int} :
    signed 2 (unsigned 2 n) = n ↔ -32768 ≤ n ∧ n < 32768 := by
  unfold signed unsigned
  norm_num
  split <;> omega

/-- A label is the same on both sides, and is not taken for the default, if it is kept. -/
theorem stored_iff {nodeText : Ident → List UInt8} {switch : IdlType} {switchtc : AlignedTypeCode}
    {label : Option Const} {member : UnionMember} {x : Int}
    (hs : imoduleTypeCode nodeText switch = some switchtc) (h : StoredLabel switchtc label member)
    (hx : copyCaseValue member.labelType member.labelValue = some x) :
    Const.cLabel switch label = x ∧ member.labelType.info.kind ≠ .octet ↔
      keepsLabel switch label := by
  have hkind := imoduleTypeCode_kind hs
  cases label with
  | none =>
    simp only [StoredLabel, setupLabelAny, Option.some.injEq, Prod.mk.injEq] at h
    rw [← h.1]
    exact ⟨fun h => absurd rfl h.2, False.elim⟩
  | some src =>
    by_cases hident : ∃ str, src = .ident str
    · obtain ⟨str, rfl⟩ := hident
      simp only [StoredLabel, setupLabelAny] at h
      split at h
      · next he =>
        simp only [Option.some.injEq, Prod.mk.injEq] at h
        rw [← h.1, ← h.2, copyCaseValue, skipOneAlias_of_ne (by rw [he.1]; simp), he.1,
          Option.some.injEq] at hx
        rw [← h.1, he.1, keepsLabel_some, ← hkind, he.1, ← hx]
        have hnames : enumerators switch = switchtc.info.subnames := by
          have hk := hkind.symm.trans he.1
          cases switch with
          | enum ident names =>
            simp only [imoduleTypeCode, Option.some.injEq] at hs
            rw [← hs]
            rfl
          | integer signed type => cases signed <;> cases type <;> cases hk
          | float type => cases type <;> cases hk
          | _ => cases hk
        rw [Const.cLabel, hnames]
        simp only [ne_eq, reduceCtorEq, not_false_eq_true, and_true]
        unfold signed
        split <;> omega
      · cases h
    · have hstored : ∃ v, jamInt src switchtc = some v ∧ (switchtc, v) =
          (member.labelType, member.labelValue) := by
        cases src with
        | ident str => exact absurd ⟨str, rfl⟩ hident
        | wideChar value => simp [StoredLabel, setupLabelAny] at h
        | boolean value => exact Option.map_eq_some_iff.1 h
        | char value => exact Option.map_eq_some_iff.1 h
        | integer value => exact Option.map_eq_some_iff.1 h
      obtain ⟨v, hj, hm⟩ := hstored
      rw [Prod.mk.injEq] at hm
      rw [← hm.1, ← hm.2] at hx
      rw [← hm.1, keepsLabel_some, ← hkind]
      have hlt := (cLabel_range switch fun str he => hident ⟨str, he⟩).2
      rcases copyCaseValue_jamInt switch hj hx with ⟨hk | hk | hk, rfl⟩ | ⟨hk | hk, rfl⟩ | ⟨hk | hk, rfl⟩ <;>
        rw [hk] <;> simp only [ne_eq, reduceCtorEq, not_true_eq_false, not_false_eq_true, and_true, and_false,
          eq_comm (b := signed 2 _), signed_unsigned_two, hlt] <;> omega

theorem defaultIndex_of_isSome {labels : List (Option Const)} (h : none ∉ labels) (index : Nat)
    (found : Int) : defaultIndex index found labels = found := by
  induction labels generalizing index with
  | nil => rfl
  | cons label labels ih =>
    cases label with
    | none => exact absurd List.mem_cons_self h
    | some label => exact ih (fun hm => h (List.mem_cons_of_mem _ hm)) (index+1)

theorem defaultIndexFrom_nonneg {members : List UnionMember} (index : Nat) {found : Int}
    (h : 0 ≤ found) : 0 ≤ defaultIndexFrom index found members := by
  induction members generalizing index found with
  | nil => exact h
  | cons member members ih =>
    rw [defaultIndexFrom]
    apply ih
    split
    · exact Int.natCast_nonneg index
    · exact h

theorem defaultIndexFrom_neg_iff {members : List UnionMember} (index : Nat) :
    defaultIndexFrom index (-1) members = -1 ↔ ∀ member ∈ members, member.labelType.info.kind ≠ .octet := by
  induction members generalizing index with
  | nil => simp [defaultIndexFrom]
  | cons member members ih =>
    rw [defaultIndexFrom, List.forall_mem_cons]
    by_cases hk : member.labelType.info.kind = .octet
    · have hn := @defaultIndexFrom_nonneg members (index+1) index (Int.natCast_nonneg index)
      rw [if_pos hk]
      exact ⟨fun h => by omega, fun h => absurd hk h.1⟩
    · rw [if_neg hk, ih]
      simp [hk]

theorem storedLabels_iff {nodeText : Ident → List UInt8} {switch : IdlType}
    {switchtc : AlignedTypeCode} {labels : List (Option Const)} {members : List UnionMember}
    {sublabels : List Int} (hs : imoduleTypeCode nodeText switch = some switchtc)
    (h : List.Forall₂ (StoredLabel switchtc) labels members)
    (hx : List.Forall₂ (fun member x => copyCaseValue member.labelType member.labelValue = some x)
      members sublabels) :
    (labels.map (Const.cLabel switch) = sublabels ∧
        ∀ member ∈ members, member.labelType.info.kind ≠ .octet) ↔
      ∀ label ∈ labels, keepsLabel switch label := by
  induction h generalizing sublabels with
  | nil =>
    cases hx
    simp
  | cons hstored _ ih =>
    cases hx with
    | cons hcopy hx =>
      rw [List.map_cons, List.cons.injEq, List.forall_mem_cons, List.forall_mem_cons,
        ← stored_iff hs hstored hcopy, ← ih hx]
      tauto

/-- The label `default` is never the same on both sides. -/
theorem isSome_of_labels {switch : IdlType} {switchtc : AlignedTypeCode}
    {labels : List (Option Const)} {members : List UnionMember} {sublabels : List Int}
    (h : List.Forall₂ (StoredLabel switchtc) labels members)
    (hx : List.Forall₂ (fun member x => copyCaseValue member.labelType member.labelValue = some x)
      members sublabels) (he : labels.map (Const.cLabel switch) = sublabels) : none ∉ labels := by
  induction h generalizing sublabels with
  | nil => simp
  | cons hstored _ ih =>
    cases hx with
    | cons hcopy hx =>
      rw [List.map_cons, List.cons.injEq] at he
      have hrest := ih hx he.2
      intro hm
      rcases List.mem_cons.1 hm with rfl | hm
      · simp only [StoredLabel, setupLabelAny, Option.some.injEq, Prod.mk.injEq] at hstored
        rw [← hstored.1, ← hstored.2] at hcopy
        have h255 : copyCaseValue (staticTc .octet "octet") (unsigned 1 (-1)) = some 255 := rfl
        rw [h255, Option.some.injEq] at hcopy
        rw [Const.cLabel] at he
        omega
      · exact hrest hm

theorem labels_iff {nodeText : Ident → List UInt8} {switch : IdlType}
    {switchtc : AlignedTypeCode} {labels : List (Option Const)} {members : List UnionMember}
    {sublabels : List Int} (hs : imoduleTypeCode nodeText switch = some switchtc)
    (h : List.Forall₂ (StoredLabel switchtc) labels members)
    (hx : List.Forall₂ (fun member x => copyCaseValue member.labelType member.labelValue = some x)
      members sublabels) :
    (defaultIndex 0 (-1) labels = defaultIndexFrom 0 (-1) members ∧
        labels.map (Const.cLabel switch) = sublabels) ↔
      ∀ label ∈ labels, keepsLabel switch label := by
  rw [← storedLabels_iff hs h hx, and_comm]
  refine and_congr_right ?_
  intro he
  rw [defaultIndex_of_isSome (isSome_of_labels h hx he), eq_comm, defaultIndexFrom_neg_iff]

/-! ### Members and arms -/

theorem forall₂_append_iff {α β : Type} {R : α → β → Prop} {l m : List α} {l' m' : List β}
    (h : l.length = l'.length) :
    List.Forall₂ R (l ++ m) (l' ++ m') ↔ List.Forall₂ R l l' ∧ List.Forall₂ R m m' := by
  induction l generalizing l' with
  | nil =>
    rw [List.length_eq_zero_iff.1 h.symm]
    simp
  | cons a l ih =>
    cases l' with
    | nil => cases h
    | cons b l' =>
      rw [List.cons_append, List.cons_append, List.forall₂_cons, List.forall₂_cons,
        ih (Nat.succ.inj h), and_assoc]

/-- Named parts on both sides, one by one. -/
def PartsAgree (names : List (List UInt8)) (tcs : List CTypeCode) (names' : List (List UInt8))
    (tcs' : List CTypeCode) : Prop :=
  names = names' ∧ List.Forall₂ TypeCodesAgree tcs tcs'

theorem PartsAgree.append_iff {names names' more more' : List (List UInt8)}
    {tcs tcs' tcsMore tcsMore' : List CTypeCode} (hn : names.length = names'.length)
    (ht : tcs.length = tcs'.length) :
    PartsAgree (names ++ more) (tcs ++ tcsMore) (names' ++ more') (tcs' ++ tcsMore') ↔
      PartsAgree names tcs names' tcs' ∧ PartsAgree more tcsMore more' tcsMore' := by
  have hnames : names ++ more = names' ++ more' ↔ names = names' ∧ more = more' :=
    ⟨fun h => List.append_inj h hn, fun h => by rw [h.1, h.2]⟩
  rw [PartsAgree, hnames, forall₂_append_iff ht, PartsAgree, PartsAgree]
  tauto

/-- The same part, once for each of the names. -/
theorem PartsAgree.const_iff {γ : Type} {l : List γ} (hl : l ≠ []) {f g : γ → List UInt8}
    {tc tc' : CTypeCode} :
    PartsAgree (l.map f) (l.map fun _ => tc) (l.map g) (l.map fun _ => tc') ↔
      TypeCodesAgree tc tc' ∧ ∀ a ∈ l, f a = g a := by
  obtain ⟨a, ha⟩ := List.exists_mem_of_ne_nil l hl
  rw [PartsAgree, List.map_inj_left, List.forall₂_map_left_iff, List.forall₂_map_right_iff,
    List.forall₂_same, and_comm]
  exact and_congr_left fun _ => ⟨fun h => h a ha, fun h _ _ => h⟩

theorem allPlain_eq_map (tcs : List AlignedTypeCode) : allPlain tcs = tcs.map plain := by
  induction tcs with
  | nil => rfl
  | cons tc tcs ih => rw [allPlain, ih, List.map_cons]

theorem labelMembers_spec {switchtc : AlignedTypeCode} {name : List UInt8} {subtc : AlignedTypeCode}
    {labels : List (Option Const)} {members : List UnionMember}
    (h : labelMembers switchtc name subtc labels = some members) :
    List.Forall₂ (StoredLabel switchtc) labels members ∧ members.map (·.name) = labels.map (fun _ => name) ∧
      members.map (·.type) = labels.map fun _ => subtc := by
  have h₂ := forall₂_of_mapM h
  clear h
  induction h₂ with
  | nil => exact ⟨.nil, rfl, rfl⟩
  | cons hmember _ ih =>
    obtain ⟨⟨type, value⟩, hstored, hm⟩ := Option.bind_eq_some_iff.1 hmember
    cases hm
    rw [List.map_cons, List.map_cons, List.map_cons, List.map_cons, ih.2.1, ih.2.2]
    exact ⟨.cons hstored ih.1, rfl, rfl⟩

section
variable (emitted : List UInt8 → Nat) (enclosing : Ident → CTypeCode)
  (nodeText : Ident → List UInt8)

theorem agree_createArrays {tc : CTypeCode} {subtc : AlignedTypeCode} (sizes : List Nat) :
    TypeCodesAgree (nestArrays tc sizes) (createArrays subtc sizes).plain ↔ TypeCodesAgree tc subtc.plain := by
  induction sizes with
  | nil => rfl
  | cons size sizes ih =>
    rw [nestArrays, createArrays, createArrayTc, plain, allPlain, allPlain, discriminatorPlain]
    refine Iff.trans (CTypeCode.agree_element (.inr rfl) (by rfl) (by rfl) (by rfl) (by rfl) _ _) ?_
    rw [ih]
    exact and_iff_right rfl

theorem agree_static {kind : TCKind} {name : String}
    (h : kind ≠ .sequence ∧ kind ≠ .array ∧ kind ≠ .alias ∧ kind ≠ .union) (hn : kind ≠ .null) :
    TypeCodesAgree (basicTypeCode kind name) (staticTc kind name).plain :=
  CTypeCode.agree_leaf rfl (fun _ => rfl) (by simp [hn]) rfl rfl rfl rfl h

/-- What the module builds for an interface, or an alias of one, beside `Object`. -/
theorem agree_object (type : IdlType) {tc : AlignedTypeCode}
    (h : imoduleTypeCode nodeText type = some tc) (hi : type.interfaceDeclspec.isSome = true) :
    TypeCodesAgree (basicTypeCode .objref "Object") tc.plain ↔ type.isObject := by
  cases type with
  | interface ident declspec =>
    simp only [imoduleTypeCode, Option.some.injEq] at h
    subst h
    rw [IdlType.isObject, basicTypeCode, createInterfaceTc, plain, allPlain, discriminatorPlain]
    constructor
    · rintro ⟨hequal, hnames⟩
      rw [CTypeCode.equal, CTypeCode.typecodeEquivInternal, if_neg (by simp)] at hequal
      rw [CTypeCode.SameNames] at hnames
      simp [allocate] at hequal hnames
      exact ⟨hequal.symm, hnames.1.symm⟩
    · rintro ⟨hid, hname⟩
      exact CTypeCode.agree_leaf (by rfl) (by simp [allocate]) hid.symm (by rfl) hname.symm (by rfl)
        (by rfl) (by simp)
  | typedef dcl type =>
    cases dcl with
    | ident name =>
      rw [imoduleTypeCode] at h
      obtain ⟨subtc, _, h⟩ := Option.bind_eq_some_iff.1 h
      cases h
      rw [basicTypeCode, createAliasTc, plain]
      refine iff_of_false ?_ (by simp [IdlType.isObject])
      rintro ⟨hequal, _⟩
      rw [CTypeCode.equal, CTypeCode.typecodeEquivInternal, if_neg (by simp)] at hequal
      simp [allocate] at hequal
    | array name sizes => simp [IdlType.interfaceDeclspec] at hi
  | _ => simp [IdlType.interfaceDeclspec] at hi

theorem length_staticArms {body : List CaseStmt} :
    (staticArms emitted enclosing body).length = (caseLabels body).length ∧
      (caseNames body).length = (caseLabels body).length := by
  induction body with
  | nil => rw [staticArms, caseNames, caseLabels]; exact ⟨rfl, rfl⟩
  | cons stmt body ih =>
    obtain ⟨label, labels, type, dcl⟩ := stmt
    rw [staticArms, caseNames, caseLabels]
    simp [ih.1, ih.2]

mutual

/-- The TypeCode that the run-time module builds is equal to the static one if the type has
nothing that the two translators treat differently. -/
theorem agree_iff : (type : IdlType) → ∀ ⦃tc : AlignedTypeCode⦄,
    imoduleTypeCode nodeText type = some tc →
    (TypeCodesAgree (staticTypeCode emitted enclosing type) tc.plain ↔ type.agreeing emitted nodeText)
  | .struct ident members => by
    intro tc h
    rw [imoduleTypeCode] at h
    obtain ⟨ms, hms, h⟩ := Option.bind_eq_some_iff.1 h
    cases h
    obtain ⟨hlen, hparts⟩ := membersAgree_iff members hms
    rw [staticTypeCode, createStructTc, plain, discriminatorPlain, allPlain_eq_map, List.map_map,
      IdlType.agreeing, ← hparts]
    exact CTypeCode.agree_members (.inl rfl) (by rfl) (by rfl) (by rfl) (by rfl) (by simpa using hlen)
  | .except ident members => by
    intro tc h
    rw [imoduleTypeCode] at h
    obtain ⟨ms, hms, h⟩ := Option.bind_eq_some_iff.1 h
    cases h
    obtain ⟨hlen, hparts⟩ := membersAgree_iff members hms
    rw [staticTypeCode, createExceptionTc, plain, discriminatorPlain, allPlain_eq_map, List.map_map,
      IdlType.agreeing, ← hparts]
    exact CTypeCode.agree_members (.inr rfl) (by rfl) (by rfl) (by rfl) (by rfl) (by simpa using hlen)
  | .union ident switch body => by
    intro tc h
    rw [imoduleTypeCode] at h
    obtain ⟨switchtc, hswitch, h⟩ := Option.bind_eq_some_iff.1 h
    obtain ⟨ms, hms, h⟩ := Option.bind_eq_some_iff.1 h
    obtain ⟨sublabels, hcopy, rfl⟩ := createUnionTc_eq h
    obtain ⟨hstored, hparts⟩ := armsAgree_iff body hms
    have hdis := agree_iff switch hswitch
    have hlabels := labels_iff hswitch hstored hcopy
    have hlen := hstored.length_eq
    have hlen' := hcopy.length_eq
    obtain ⟨harms, hnames⟩ := @length_staticArms emitted enclosing body
    rw [staticTypeCode, plain, discriminatorPlain, allPlain_eq_map, List.map_map, IdlType.agreeing,
      ← hdis, ← hparts, ← hlabels, PartsAgree, and_assoc]
    exact CTypeCode.agree_union (by rfl) (by rfl) (by rfl) (by rfl) (by simp [harms, hlen]) (by simp [harms])
      (by simpa using hlen'.symm) _ _
  | .sequence element bound => by
    intro tc h
    rw [imoduleTypeCode] at h
    obtain ⟨subtc, hsub, h⟩ := Option.bind_eq_some_iff.1 h
    cases h
    have he := agree_iff element hsub
    rw [staticTypeCode, createSequenceTc, plain, allPlain, allPlain, discriminatorPlain,
      IdlType.agreeing]
    refine (CTypeCode.agree_element (.inl rfl) (by rfl) (by rfl) (by rfl) (by rfl) _ _).trans
      (and_congr_right fun _ => ?_)
    split
    · next hd => exact agree_object nodeText element hsub (Option.isSome_of_any hd)
    · exact he
  | .typedef (.ident name) type => by
    intro tc h
    rw [imoduleTypeCode] at h
    obtain ⟨subtc, hsub, h⟩ := Option.bind_eq_some_iff.1 h
    cases h
    have ht := agree_iff type hsub
    rw [staticTypeCode, createAliasTc, plain, allPlain, allPlain, discriminatorPlain,
      IdlType.agreeing, ← ht]
    exact CTypeCode.agree_alias (by rfl) (by rfl) (by rfl) (by rfl) (by rfl) _ _
  | .typedef (.array name sizes) type => by
    intro tc h
    rw [imoduleTypeCode] at h
    obtain ⟨subtc, hsub, h⟩ := Option.bind_eq_some_iff.1 h
    cases h
    have ht := agree_iff type hsub
    rw [staticTypeCode, createAliasTc, plain, allPlain, allPlain, discriminatorPlain,
      IdlType.agreeing, ← ht, ← agree_createArrays sizes]
    exact CTypeCode.agree_alias (by rfl) (by rfl) (by rfl) (by rfl) (by rfl) _ _
  | .enum ident names => by
    intro tc h
    simp only [imoduleTypeCode, Option.some.injEq] at h
    subst h
    rw [staticTypeCode]
    exact iff_of_true (CTypeCode.agree_leaf (by rfl) (by simp) (by rfl) (by rfl) (by rfl) (by rfl) (by rfl) (by simp))
      (by simp [IdlType.agreeing])
  | .interface ident _ => by
    intro tc h
    simp only [imoduleTypeCode, Option.some.injEq] at h
    subst h
    rw [staticTypeCode]
    exact iff_of_true (CTypeCode.agree_leaf (by rfl) (by simp [allocate]) (by rfl) (by rfl) (by rfl) (by rfl) (by rfl) (by simp))
      (by simp [IdlType.agreeing])
  | .recursiveSequence _ _ => by
    intro tc h
    simp [imoduleTypeCode] at h
  | .integer signed type => by
    intro tc h
    cases signed <;> cases type <;> simp only [imoduleTypeCode, Option.some.injEq] at h <;>
      subst h <;> rw [staticTypeCode] <;>
      exact iff_of_true (agree_static (by decide) (by decide)) (by simp [IdlType.agreeing])
  | .float type => by
    intro tc h
    cases type <;> simp only [imoduleTypeCode, Option.some.injEq] at h <;>
      subst h <;> rw [staticTypeCode] <;>
      exact iff_of_true (agree_static (by decide) (by decide)) (by simp [IdlType.agreeing])
  | .char | .wideChar | .boolean | .octet | .any | .object | .typeCode | .string _
  | .wideString _ => by
    intro tc h
    simp only [imoduleTypeCode, Option.some.injEq] at h
    subst h
    rw [staticTypeCode]
    exact iff_of_true (agree_static (by decide) (by decide)) (by simp [IdlType.agreeing])

theorem membersAgree_iff : (members : List Member) → ∀ ⦃ms : List StructMember⦄,
    imoduleMembers nodeText members = some ms →
    (staticMembers emitted enclosing members).length = ms.length ∧
      (PartsAgree (memberNames members) (staticMembers emitted enclosing members)
          (ms.map (·.name)) (ms.map (plain ∘ (·.type))) ↔
        membersAgreeing emitted nodeText members)
  | [] => by
    intro ms h
    rw [imoduleMembers] at h
    cases h
    rw [staticMembers, memberNames, membersAgreeing]
    exact ⟨rfl, iff_of_true ⟨rfl, .nil⟩ trivial⟩
  | .mk type dcl dcls :: members => by
    intro ms h
    rw [imoduleMembers] at h
    obtain ⟨subtc, hsub, h⟩ := Option.bind_eq_some_iff.1 h
    obtain ⟨rest, hrest, h⟩ := Option.bind_eq_some_iff.1 h
    cases h
    have ht : TypeCodesAgree (if type.interfaceDeclspec.any Declspec.pidl then basicTypeCode .objref "Object"
          else staticTypeCode emitted enclosing type) subtc.plain ↔
        if type.interfaceDeclspec.any Declspec.pidl then type.isObject
        else type.agreeing emitted nodeText := by
      split
      · next hd => exact agree_object nodeText type hsub (Option.isSome_of_any hd)
      · exact agree_iff type hsub
    obtain ⟨hlen, hparts⟩ := membersAgree_iff members hrest
    refine ⟨by rw [staticMembers]; simp [hlen], ?_⟩
    rw [staticMembers, memberNames, membersAgreeing, List.map_append, List.map_append, List.map_map,
      List.map_map, PartsAgree.append_iff (by simp) (by simp), hparts, ← ht]
    refine and_congr_left fun _ => ?_
    rw [← and_congr_right (fun _ => forall₂_congr fun _ _ => eq_comm)]
    exact PartsAgree.const_iff (List.cons_ne_nil _ _)

theorem armsAgree_iff : (body : List CaseStmt) → ∀ ⦃switchtc : AlignedTypeCode⦄
    ⦃ms : List UnionMember⦄, imoduleArms nodeText switchtc body = some ms →
    List.Forall₂ (StoredLabel switchtc) (caseLabels body) ms ∧
      (PartsAgree (caseNames body) (staticArms emitted enclosing body)
          (ms.map (·.name)) (ms.map (plain ∘ (·.type))) ↔
        armsAgreeing emitted nodeText body)
  | [] => by
    intro switchtc ms h
    rw [imoduleArms] at h
    cases h
    rw [staticArms, caseNames, caseLabels, armsAgreeing]
    exact ⟨.nil, iff_of_true ⟨rfl, .nil⟩ trivial⟩
  | .mk label labels type dcl :: body => by
    intro switchtc ms h
    rw [imoduleArms] at h
    obtain ⟨subtc, hsub, h⟩ := Option.bind_eq_some_iff.1 h
    obtain ⟨first, hfirst, h⟩ := Option.bind_eq_some_iff.1 h
    obtain ⟨rest, hrest, h⟩ := Option.bind_eq_some_iff.1 h
    cases h
    have ht := agree_iff type hsub
    obtain ⟨hstored, hparts⟩ := armsAgree_iff body hrest
    obtain ⟨hfirstStored, hnames, htypes⟩ := labelMembers_spec hfirst
    refine ⟨?_, ?_⟩
    · rw [caseLabels, forall₂_append_iff hfirstStored.length_eq]
      exact ⟨hfirstStored, hstored⟩
    · rw [staticArms, caseNames, armsAgreeing, List.map_append, List.map_append, ← List.map_map,
        ← List.map_map, htypes, hnames, List.map_map,
        PartsAgree.append_iff (by simp) (by simp), List.map_map, hparts, ← ht]
      refine and_congr_left fun _ => ?_
      have hconst := @PartsAgree.const_iff _ (label :: labels) (List.cons_ne_nil _ _)
        (fun _ => dcl.name.str) (fun _ => imoduleName nodeText dcl)
        (staticTypeCode emitted enclosing type) subtc.plain
      refine hconst.trans (and_congr_right fun _ => ?_)
      exact ⟨fun h => (h label List.mem_cons_self).symm, fun h _ _ => h.symm⟩

end
end

/-- Of a type that both translators accept, the TypeCode of the run-time IDL module is equal to
the static one, with the same names, if and only if the two treat alike what is in it. -/
theorem imoduleTypeCode_agrees_iff (emitted : List UInt8 → Nat) (enclosing : Ident → CTypeCode)
    (nodeText : Ident → List UInt8) {type : IdlType} {tc : AlignedTypeCode}
    (h : imoduleTypeCode nodeText type = some tc) :
    TypeCodesAgree (staticTypeCode emitted enclosing type) tc.plain ↔ type.agreeing emitted nodeText :=
  agree_iff emitted enclosing nodeText type h

/-- `union U switch (long) { case 1: long a; default: short b; };` -/
def unionWithDefault : IdlType :=
  .union ⟨ascii "U", ascii "IDL:U:1.0", ascii "U"⟩ (.integer true .long)
    [.mk (some (.integer 1)) [] (.integer true .long) (.ident ⟨ascii "a", [], []⟩),
      .mk none [] (.integer true .short) (.ident ⟨ascii "b", [], []⟩)]

/-- The label of `default` is -1 on one side, and the octet 255 on the other. -/
theorem not_agree_unionWithDefault :
    (imoduleTypeCode (fun _ => []) unionWithDefault).map (fun tc =>
      ((staticTypeCode (fun _ => 0) (fun _ => basicTypeCode .long "long") unionWithDefault).equal
        tc.plain)) = some (some false) := by
  decide_cbv

/-- `union U switch (E) { case x: sequence<long> a; case y: string b; };`, where `E` is
`enum E { x, y };`. -/
def unionOfEnum : IdlType :=
  .union ⟨ascii "U", ascii "IDL:U:1.0", ascii "U"⟩
    (.enum ⟨ascii "E", ascii "IDL:E:1.0", ascii "E"⟩ [ascii "x", ascii "y"])
    [.mk (some (.ident (ascii "x"))) [] (.sequence (.integer true .long) none)
        (.ident ⟨ascii "a", [], []⟩),
      .mk (some (.ident (ascii "y"))) [] (.string none) (.ident ⟨ascii "b", [], []⟩)]

theorem agree_unionOfEnum : ∃ tc, imoduleTypeCode (fun _ => []) unionOfEnum = some tc ∧
    (TypeCodesAgree (staticTypeCode (fun _ => 0) (fun _ => basicTypeCode .long "long") unionOfEnum) tc.plain ↔
      unionOfEnum.agreeing (fun _ => 0) fun _ => []) := by
  have hsome : (imoduleTypeCode (fun _ => []) unionOfEnum).isSome = true := by decide_cbv
  obtain ⟨tc, h⟩ := Option.isSome_iff_exists.1 hsome
  exact ⟨tc, h, imoduleTypeCode_agrees_iff _ _ _ h⟩

end ORBit2
