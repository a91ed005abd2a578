import ORBit2.UnionSelection

/-! `CORBA_TypeCode_member_count` and its kin on the TypeCodes of `CORBA_ORB_create_struct_tc` and
its kin, and on any other. -/

set_option autoImplicit false

namespace ORBit2
open Words Traversal
open AlignedTypeCode (StructMember UnionMember copyCaseValue createUnionTc defaultIndexFrom
  createStructTc createEnumTc createExceptionTc)

/-- The outcome of an inspector: a result, an exception, or a read outside its array. -/
inductive Inspected (α : Type) where
  | ok (a : α)
  | badKind
  | bounds
  | wild
  deriving DecidableEq

namespace Inspected
variable {α : Type}

/-- `array [index]`. -/
def at? (array : List α) (index : Nat) : Inspected α :=
  match array[index]? with
  | some a => ok a
  | none => wild

theorem at?_eq_ok {array : List α} {index : Nat} {a : α} :
    at? array index = ok a ↔ array[index]? = some a := by
  unfold at?
  cases array[index]? <;> simp

theorem at?_ne_bounds (array : List α) (index : Nat) : at? array index ≠ bounds := by
  unfold at?
  cases array[index]? <;> simp

theorem at?_ne_badKind (array : List α) (index : Nat) : at? array index ≠ badKind := by
  unfold at?
  cases array[index]? <;> simp

end Inspected

/-- The kinds with members. -/
def TCKind.hasMembers : TCKind → Bool
  | .struct | .union | .value | .enum | .except => true
  | _ => false

/-- The kinds with members that have types. -/
def TCKind.hasMemberTypes : TCKind → Bool
  | .struct | .union | .value | .except => true
  | _ => false

/-- The array `sublabels` in memory. -/
def labelBytes (host : Endian) (sublabels : List Int) : List UInt8 :=
  sublabels.flatMap fun label => host.split 4 (unsigned 4 label)

namespace AlignedTypeCode

def subtypes : AlignedTypeCode → List AlignedTypeCode
  | .node _ _ subtypes _ => subtypes

def discriminator : AlignedTypeCode → Option AlignedTypeCode
  | .node _ _ _ discriminator => discriminator

/-- `tc->sub_parts`. -/
def subParts (tc : AlignedTypeCode) : Nat :=
  match tc.info.kind with
  | .struct | .union | .except | .sequence | .array | .alias => tc.subtypes.length
  | .enum => tc.info.subnames.length
  | _ => 0

/-- `CORBA_TypeCode_member_count`. -/
def memberCount (tc : AlignedTypeCode) : Inspected Nat :=
  if tc.info.kind.hasMembers then .ok tc.subParts else .badKind

/-- `CORBA_TypeCode_member_name`. -/
def memberName (tc : AlignedTypeCode) (index : Nat) : Inspected (List UInt8) :=
  if tc.info.kind.hasMembers then
    if tc.subParts < index then .bounds else .at? tc.info.subnames index
  else .badKind

/-- `CORBA_TypeCode_member_type`, which lets enumerations pass. -/
def memberType (tc : AlignedTypeCode) (index : Nat) : Inspected AlignedTypeCode :=
  if tc.info.kind.hasMembers then
    if tc.subParts < index then .bounds else .at? tc.subtypes index
  else .badKind

/-- `ORBit_copy_value (&sublabels [index], discriminator)`, as the word of the any. -/
def copyLabel (host : Endian) (sublabels : List Int) (discriminator : AlignedTypeCode)
    (index : Nat) : Inspected Nat :=
  let size := discriminator.plain.skipAlias.kind.sizeof
  let bytes := ((labelBytes host sublabels).drop (4 * index)).take size
  if bytes.length = size then .ok (host.join bytes) else .wild

/-- `CORBA_TypeCode_member_label`: the type and the value of the any. -/
def memberLabel (host : Endian) (tc : AlignedTypeCode) (index : Nat) :
    Inspected (AlignedTypeCode × Nat) :=
  if tc.info.kind = .union then
    if tc.subParts < index then .bounds
    else
      match tc.discriminator with
      | none => .wild
      | some d =>
          match copyLabel host tc.info.sublabels d index with
          | .ok value => .ok (d, value)
          | _ => .wild
  else .badKind

/-- `CORBA_TypeCode_discriminator_type`. -/
def discriminatorType (tc : AlignedTypeCode) : Inspected AlignedTypeCode :=
  if tc.info.kind = .union then
    match tc.discriminator with
    | none => .wild
    | some d => .ok d
  else .badKind

/-- `CORBA_TypeCode_default_index`. -/
def defaultIndex (tc : AlignedTypeCode) : Inspected Int :=
  if tc.info.kind = .union then .ok tc.info.defaultIndex else .badKind

end AlignedTypeCode

open AlignedTypeCode (memberCount memberName memberType memberLabel discriminatorType copyLabel)

/-! ### The labels -/

theorem labelBytes_length (host : Endian) (sublabels : List Int) :
    (labelBytes host sublabels).length = 4 * sublabels.length := by
  induction sublabels with
  | nil => rfl
  | cons label sublabels ih =>
    rw [labelBytes, List.flatMap_cons, List.length_append, Endian.split_length]
    rw [labelBytes] at ih
    rw [ih, List.length_cons]
    omega

theorem labelBytes_drop (host : Endian) (sublabels : List Int) (index : Nat) :
    (labelBytes host sublabels).drop (4 * index) = labelBytes host (sublabels.drop index) := by
  induction index generalizing sublabels with
  | zero => rfl
  | succ index ih =>
    cases sublabels with
    | nil => simp [labelBytes]
    | cons label sublabels =>
      rw [List.drop_succ_cons, ← ih, labelBytes, List.flatMap_cons, List.drop_append,
        List.drop_of_length_le (by rw [Endian.split_length]; omega), Endian.split_length,
        List.nil_append, show 4 * (index + 1) - 4 = 4 * index by omega, labelBytes]

/-- The low bytes of a word, and the high ones. -/
theorem join_take_split (host : Endian) {n size : Nat} (hn : n < 256 ^ 4)
    (hs : size = 1 ∨ size = 2 ∨ size = 4) :
    host.join ((host.split 4 n).take size) =
      match host with
      | .little => n % 256 ^ size
      | .big => n / 256 ^ (4 - size) := by
  have hn' : n < 4294967296 := by simpa using hn
  have h0 : n % 256 < 256 := Nat.mod_lt _ (by omega)
  have h1 : n / 256 % 256 < 256 := Nat.mod_lt _ (by omega)
  have h2 : n / 256 / 256 % 256 < 256 := Nat.mod_lt _ (by omega)
  have h3 : n / 256 / 256 / 256 % 256 < 256 := Nat.mod_lt _ (by omega)
  cases host <;> rcases hs with rfl | rfl | rfl <;>
    simp [Endian.split, Endian.join, splitLE, joinLE] <;> omega

/-- Where a discriminator has no more bytes than a label, copying one is reading its bytes. -/
theorem copyLabel_eq {host : Endian} {sublabels : List Int} {d : AlignedTypeCode} {index : Nat}
    {x : Int} (hx : sublabels[index]? = some x)
    (hs : d.plain.skipAlias.kind.sizeof = 1 ∨ d.plain.skipAlias.kind.sizeof = 2 ∨
      d.plain.skipAlias.kind.sizeof = 4) :
    copyLabel host sublabels d index =
      .ok (host.join ((host.split 4 (unsigned 4 x)).take d.plain.skipAlias.kind.sizeof)) := by
  obtain ⟨hlt, hget⟩ := List.getElem?_eq_some_iff.1 hx
  have hdrop : sublabels.drop index = x :: sublabels.drop (index+1) := by
    rw [← hget, List.getElem_cons_drop]
  have htake : ((labelBytes host sublabels).drop (4 * index)).take
      d.plain.skipAlias.kind.sizeof =
        (host.split 4 (unsigned 4 x)).take d.plain.skipAlias.kind.sizeof := by
    rw [labelBytes_drop, hdrop, labelBytes, List.flatMap_cons, List.take_append_of_le_length]
    rw [Endian.split_length]
    omega
  rw [copyLabel]
  simp only [htake]
  rw [if_pos]
  rw [List.length_take, Endian.split_length]
  omega

/-- Whether all the bytes of a label are in the array. -/
theorem copyLabel_wild_iff {host : Endian} {sublabels : List Int} {d : AlignedTypeCode}
    {index : Nat} : copyLabel host sublabels d index = .wild ↔
      4 * (sublabels.length - index) < d.plain.skipAlias.kind.sizeof := by
  have hlen : (((labelBytes host sublabels).drop (4 * index)).take
      d.plain.skipAlias.kind.sizeof).length =
        min d.plain.skipAlias.kind.sizeof (4 * (sublabels.length - index)) := by
    rw [List.length_take, List.length_drop, labelBytes_length]
    congr 1
    omega
  rw [copyLabel]
  simp only [hlen]
  split
  · simp
    omega
  · simp
    omega

/-! ### The makers -/

/-- Names and types are those of the members. -/
def ReportsMembers (members : List StructMember) (tc : AlignedTypeCode) : Prop :=
  memberCount tc = .ok members.length ∧
  ∀ (index : Nat) (member : StructMember), members[index]? = some member →
    memberName tc index = .ok member.name ∧ memberType tc index = .ok member.type

theorem createStructTc_reports (id name : List UInt8) (members : List StructMember) :
    ReportsMembers members (createStructTc id name members) ∧
      ReportsMembers members (createExceptionTc id name members) := by
  have hcount (tc : AlignedTypeCode) (hk : tc.info.kind = .struct ∨ tc.info.kind = .except)
      (hn : tc.info.subnames = members.map (·.name)) (ht : tc.subtypes = members.map (·.type)) :
      ReportsMembers members tc := by
    have hm : tc.info.kind.hasMembers = true := by
      rcases hk with hk | hk <;> rw [hk] <;> rfl
    have hsub : tc.subParts = members.length := by
      rcases hk with hk | hk <;> simp [AlignedTypeCode.subParts, hk, ht]
    refine ⟨?_, ?_⟩
    · rw [memberCount, if_pos hm, hsub]
    · intro index member hat
      have hlt := (List.getElem?_eq_some_iff.1 hat).1
      rw [memberName, if_pos hm, if_neg (by omega), memberType, if_pos hm, if_neg (by omega),
        Inspected.at?_eq_ok, Inspected.at?_eq_ok, hn, ht]
      simp [hat]
  exact ⟨hcount _ (.inl rfl) rfl rfl, hcount _ (.inr rfl) rfl rfl⟩

theorem createEnumTc_reports (id name : List UInt8) (members : List (List UInt8)) :
    memberCount (createEnumTc id name members) = .ok members.length ∧
      ∀ (index : Nat) (member : List UInt8), members[index]? = some member →
        memberName (createEnumTc id name members) index = .ok member := by
  refine ⟨rfl, ?_⟩
  intro index member hat
  have hlt := (List.getElem?_eq_some_iff.1 hat).1
  have hcount : (createEnumTc id name members).subParts = members.length := rfl
  have hm : (createEnumTc id name members).info.kind.hasMembers = true := rfl
  rw [memberName, if_pos hm, if_neg (by omega), Inspected.at?_eq_ok]
  exact hat

/-- Each member of a union with its label, and `default` where its label is. -/
structure ReportsUnion (host : Endian) (discriminator : AlignedTypeCode)
    (members : List UnionMember) (tc : AlignedTypeCode) : Prop where
  count : memberCount tc = .ok members.length
  member : ∀ (index : Nat) (member : UnionMember), members[index]? = some member →
    memberName tc index = .ok member.name ∧ memberType tc index = .ok member.type ∧
      memberLabel host tc index = .ok (discriminator, member.labelValue)
  discriminator : discriminatorType tc = .ok discriminator
  default : ∃ k : Int, tc.defaultIndex = .ok k ∧
    (∀ index : Nat, (members.map UnionMember.label)[index]? = some none ↔ (index : Int) = k) ∧
    (none ∉ members.map UnionMember.label → k = -1)

/-- A label that survives being widened and cut again. -/
def LabelKept (host : Endian) (kind : TCKind) (member : UnionMember) : Prop :=
  host = .little ∨ kind.sizeof = 4 ∨ member.labelValue = 0 ∨
    kind.sizeof = 2 ∧ member.labelType.info.kind ≠ .octet ∧ member.labelValue = 0xffff

/-- `copy_case_value` has a case for each label, and the labels can be read again. -/
structure UnionRepresented (host : Endian) (discriminator : AlignedTypeCode) (kind : TCKind)
    (members : List UnionMember) : Prop where
  copied : ∀ member ∈ members, member.labelType.info.kind = .octet ∨
    discriminator.skipOneAlias.info.kind ≠ .alias ∧ kind.switchRead = true
  fits : members = [] ∨ kind.sizeof ≤ 4
  kept : ∀ member ∈ members, LabelKept host kind member

theorem unsigned_signed_four {v : Nat} (hv : v < 256 ^ 4) : unsigned 4 (signed 4 v) = v := by
  have hv' : v < 4294967296 := by simpa using hv
  simp only [unsigned, signed]
  split <;> omega

theorem unsigned_signed_two {v : Nat} (hv : v < 256 ^ 2) :
    unsigned 4 (signed 2 v) = if 2 ^ 15 ≤ v then v + 0xffff0000 else v := by
  have hv' : v < 65536 := by simpa using hv
  simp only [unsigned, signed]
  split <;> split <;> omega

section
variable {host : Endian} {discriminator : AlignedTypeCode} {kind : TCKind}
  {members : List UnionMember}

/-- What is copied out of a label, for a label of the discriminator's type. -/
theorem join_label_eq {v : Nat} {x : Int} (hv : v < 256 ^ kind.sizeof)
    (hx : kind.unionSwitch v = some x) (hs : kind.switches = true) :
    host.join ((host.split 4 (unsigned 4 x)).take kind.sizeof) = v ↔
      host = .little ∨ kind.sizeof = 4 ∨ v = 0 ∨ kind.sizeof = 2 ∧ v = 0xffff := by
  have hsize : kind.sizeof = 1 ∨ kind.sizeof = 2 ∨ kind.sizeof = 4 := by
    cases kind <;> simp [TCKind.unionSwitch, TCKind.sizeof] at hx ⊢
  rw [join_take_split host (unsigned_lt 4 x) hsize]
  have hword : unsigned 4 x = if kind.sizeof = 2 ∧ 2 ^ 15 ≤ v then v + 0xffff0000 else v := by
    cases kind with
    | long | ulong | enum =>
      cases hx
      rw [if_neg (by simp [TCKind.sizeof])]
      exact unsigned_signed_four hv
    | short | ushort =>
      cases hx
      simp only [TCKind.sizeof, true_and]
      exact unsigned_signed_two hv
    | char | boolean =>
      cases hx
      rw [if_neg (by simp [TCKind.sizeof])]
      have hlt : v < 256 := by simpa [TCKind.sizeof] using hv
      simp only [unsigned]
      omega
    | longlong | ulonglong | wchar => cases hx
    | _ => cases hs
  rw [hword]
  by_cases hneg : kind.sizeof = 2 ∧ 2 ^ 15 ≤ v
  · rw [if_pos hneg]
    obtain ⟨h, hle⟩ := hneg
    rw [h] at hv
    cases host <;> simp [h] <;> omega
  · rw [if_neg hneg]
    rcases hsize with h | h | h <;> rw [h] at hv hneg <;> cases host <;> simp [h] <;> omega

/-- The same for the label of `default`. -/
theorem join_octet_eq {v : Nat} (hv : v < 256)
    (hsize : kind.sizeof = 1 ∨ kind.sizeof = 2 ∨ kind.sizeof = 4) :
    host.join ((host.split 4 (unsigned 4 ((v % 2^8 : Nat) : Int))).take kind.sizeof) = v ↔
      host = .little ∨ kind.sizeof = 4 ∨ v = 0 := by
  rw [join_take_split host (unsigned_lt 4 _) hsize]
  have hword : unsigned 4 ((v % 2^8 : Nat) : Int) = v := by
    simp only [unsigned]
    omega
  rw [hword]
  rcases hsize with h | h | h <;> cases host <;> simp [h] <;> omega

/-- What `CORBA_ORB_create_union_tc` fills in. -/
structure UnionParts (discriminator : AlignedTypeCode) (members : List UnionMember)
    (tc : AlignedTypeCode) : Prop where
  kind : tc.info.kind = .union
  names : tc.info.subnames = members.map (·.name)
  types : tc.subtypes = members.map (·.type)
  copied : List.Forall₂ (fun member x => copyCaseValue member.labelType member.labelValue = some x)
    members tc.info.sublabels
  discriminator : tc.discriminator = some discriminator
  default : tc.info.defaultIndex = defaultIndexFrom 0 (-1) members

theorem createUnionTc_parts {id name : List UInt8} {tc : AlignedTypeCode}
    (htc : createUnionTc id name discriminator members = some tc) :
    UnionParts discriminator members tc := by
  obtain ⟨sublabels, hcopied, rfl⟩ := createUnionTc_eq htc
  exact ⟨rfl, rfl, rfl, hcopied, rfl, rfl⟩

namespace UnionParts
variable {tc : AlignedTypeCode}

theorem subParts (hu : UnionParts discriminator members tc) : tc.subParts = members.length := by
  simp [AlignedTypeCode.subParts, hu.kind, hu.types]

theorem hasMembers (hu : UnionParts discriminator members tc) :
    tc.info.kind.hasMembers = true := by
  rw [hu.kind]
  rfl

theorem member (hu : UnionParts discriminator members tc) {index : Nat} {member : UnionMember}
    (hat : members[index]? = some member) :
    memberName tc index = .ok member.name ∧ memberType tc index = .ok member.type := by
  have hlt := (List.getElem?_eq_some_iff.1 hat).1
  have hnot : ¬ tc.subParts < index := by
    rw [hu.subParts]
    omega
  rw [memberName, memberType, if_pos hu.hasMembers, if_pos hu.hasMembers, if_neg hnot,
    if_neg hnot, Inspected.at?_eq_ok, Inspected.at?_eq_ok, hu.names, hu.types]
  simp [hat]

theorem label_copied (hu : UnionParts discriminator members tc) {index : Nat}
    {member : UnionMember} (hat : members[index]? = some member) :
    ∃ x, tc.info.sublabels[index]? = some x ∧
      copyCaseValue member.labelType member.labelValue = some x := by
  rcases forall₂_getElem? hu.copied index with ⟨hnone, -⟩ | ⟨m, x, hat', hx, hcopy⟩
  · rw [hat] at hnone
    cases hnone
  · rw [hat] at hat'
    cases hat'
    exact ⟨x, hx, hcopy⟩

/-- The any that is made of a label is the one that was given, if the label is kept. -/
theorem label_iff (hu : UnionParts discriminator members tc)
    (h : CreatedLabels discriminator members kind)
    (ho : ∀ member ∈ members, member.labelType.info.kind = .octet → member.labelValue < 256)
    (hs : kind.sizeof ≤ 4) {index : Nat} {member : UnionMember}
    (hat : members[index]? = some member) :
    memberLabel host tc index = .ok (discriminator, member.labelValue) ↔
      LabelKept host kind member := by
  have hlt := (List.getElem?_eq_some_iff.1 hat).1
  have hm := List.mem_of_getElem? hat
  have hnot : ¬ tc.subParts < index := by
    rw [hu.subParts]
    omega
  have hsize : kind.sizeof = 1 ∨ kind.sizeof = 2 ∨ kind.sizeof = 4 := by
    have hk := h.allowed
    cases kind <;> simp [TCKind.switches, TCKind.sizeof] at hk hs ⊢
  obtain ⟨x, hx, hcopy⟩ := hu.label_copied hat
  have hlabel := @copyLabel_eq host _ discriminator index x hx (by rwa [h.switched])
  rw [memberLabel, if_pos hu.kind, if_neg hnot]
  simp only [hu.discriminator, hlabel, Inspected.ok.injEq, Prod.mk.injEq, true_and, h.switched]
  by_cases hk : member.labelType.info.kind = .octet
  · rw [copyCaseValue_octet hk] at hcopy
    cases hcopy
    rw [join_octet_eq (ho member hm hk) hsize, LabelKept]
    simp [hk]
  · obtain ⟨htype, hv⟩ := (h.label member hm).resolve_left hk
    rw [htype, copyCaseValue_eq h.allowed h.switched hv] at hcopy
    split at hcopy
    · cases hcopy
    · rw [join_label_eq hv hcopy h.allowed, LabelKept]
      simp [hk]

/-- Eight bytes cannot be read from the last label. -/
theorem label_wild (hu : UnionParts discriminator members tc)
    (h : CreatedLabels discriminator members kind) (hs : 4 < kind.sizeof) (hne : members ≠ []) :
    memberLabel host tc (members.length - 1) = .wild := by
  have hlen := hu.copied.length_eq
  have hpos := List.length_pos_iff.2 hne
  have hnot : ¬ tc.subParts < members.length - 1 := by
    rw [hu.subParts]
    omega
  have hwild : copyLabel host tc.info.sublabels discriminator (members.length - 1) = .wild := by
    rw [copyLabel_wild_iff, h.switched]
    omega
  rw [memberLabel, if_pos hu.kind, if_neg hnot]
  simp only [hu.discriminator, hwild]

theorem reports_default (hu : UnionParts discriminator members tc)
    (h : CreatedLabels discriminator members kind) :
    ∃ k : Int, tc.defaultIndex = .ok k ∧
      (∀ index : Nat, (members.map UnionMember.label)[index]? = some none ↔ (index : Int) = k) ∧
      (none ∉ members.map UnionMember.label → k = -1) := by
  refine ⟨tc.info.defaultIndex, ?_, ?_, ?_⟩
  · rw [AlignedTypeCode.defaultIndex, if_pos hu.kind]
  · rw [hu.default]
    exact defaultIndexFrom_iff h.default
  · intro hnone
    rw [hu.default, defaultIndexFrom_neg_iff]
    intro member hm hk
    refine hnone (List.mem_map.2 ⟨member, hm, ?_⟩)
    rw [UnionMember.label, if_pos hk]

end UnionParts

/-- When the inspectors report the members that `CORBA_ORB_create_union_tc` was given. -/
theorem createUnionTc_reports_iff (id name : List UInt8)
    (h : CreatedLabels discriminator members kind)
    (ho : ∀ member ∈ members, member.labelType.info.kind = .octet → member.labelValue < 256) :
    (∃ tc, createUnionTc id name discriminator members = some tc ∧
        ReportsUnion host discriminator members tc) ↔
      UnionRepresented host discriminator kind members := by
  constructor
  · rintro ⟨tc, htc, hreports⟩
    have hu := createUnionTc_parts htc
    have hfits : members = [] ∨ kind.sizeof ≤ 4 := by
      by_contra hnot
      simp only [not_or, not_le] at hnot
      have hwild : memberLabel host tc (members.length - 1) = .wild := hu.label_wild h hnot.2 hnot.1
      have hpos := List.length_pos_iff.2 hnot.1
      have hat : members[members.length - 1]? = some members[members.length - 1] :=
        List.getElem?_eq_getElem (by omega)
      have hok := (hreports.member _ _ hat).2.2
      rw [hwild] at hok
      cases hok
    refine ⟨?_, hfits, ?_⟩
    · intro member hm
      by_cases hk : member.labelType.info.kind = .octet
      · exact .inl hk
      · obtain ⟨index, hat⟩ := List.getElem?_of_mem hm
        obtain ⟨x, -, hcopy⟩ := hu.label_copied hat
        obtain ⟨htype, hv⟩ := (h.label member hm).resolve_left hk
        rw [htype, copyCaseValue_eq h.allowed h.switched hv] at hcopy
        split at hcopy
        · cases hcopy
        · refine .inr ⟨‹_›, ?_⟩
          rw [← unionSwitch_isSome kind member.labelValue, hcopy]
          rfl
    · intro member hm
      obtain ⟨index, hat⟩ := List.getElem?_of_mem hm
      have hle := hfits.resolve_left (List.ne_nil_of_mem hm)
      exact (hu.label_iff h ho hle hat).1 (hreports.member index member hat).2.2
  · intro hr
    have hcopy : ∀ member ∈ members, ∃ x,
        copyCaseValue member.labelType member.labelValue = some x := by
      intro member hm
      by_cases hk : member.labelType.info.kind = .octet
      · exact ⟨_, copyCaseValue_octet hk _⟩
      · obtain ⟨hone, hread⟩ := (hr.copied member hm).resolve_left hk
        obtain ⟨htype, hv⟩ := (h.label member hm).resolve_left hk
        rw [← unionSwitch_isSome kind member.labelValue, Option.isSome_iff_exists] at hread
        rw [htype, copyCaseValue_eq h.allowed h.switched hv, if_neg hone]
        exact hread
    obtain ⟨sublabels, hs⟩ := exists_mapM hcopy
    obtain ⟨tc, htc⟩ : ∃ tc, createUnionTc id name discriminator members = some tc := by
      rw [createUnionTc, hs]
      exact ⟨_, rfl⟩
    have hu := createUnionTc_parts htc
    refine ⟨tc, htc, ?_, ?_, ?_, hu.reports_default h⟩
    · rw [memberCount, if_pos hu.hasMembers, hu.subParts]
    · intro index member hat
      have hm := List.mem_of_getElem? hat
      have hle := hr.fits.resolve_left (List.ne_nil_of_mem hm)
      obtain ⟨hname, htype⟩ := hu.member hat
      exact ⟨hname, htype, (hu.label_iff h ho hle hat).2 (hr.kept member hm)⟩
    · rw [discriminatorType, if_pos hu.kind, hu.discriminator]

end

/-! ### Any TypeCode and any index -/

/-- The answer of an inspector: a result within the bounds, or the exception that is due. -/
def AnswersWithin {α : Type} (applies within : Prop) (answer : Inspected α) : Prop :=
  (applies → within → ∃ a, answer = .ok a) ∧ (applies → ¬ within → answer = .bounds) ∧
    (¬ applies → answer = .badKind)

/-- The inspectors raise what they should, and nothing is read outside the arrays. -/
structure InspectedSafely (host : Endian) (tc : AlignedTypeCode) (index : Nat) : Prop where
  count : AnswersWithin (tc.info.kind.hasMembers = true) True (memberCount tc)
  name : AnswersWithin (tc.info.kind.hasMembers = true) (index < tc.subParts) (memberName tc index)
  type : AnswersWithin (tc.info.kind.hasMemberTypes = true) (index < tc.subParts) (memberType tc index)
  label : AnswersWithin (tc.info.kind = .union) (index < tc.subParts) (memberLabel host tc index)
  discriminator : AnswersWithin (tc.info.kind = .union) True (discriminatorType tc)
  default : AnswersWithin (tc.info.kind = .union) True tc.defaultIndex

/-- The arrays of a TypeCode are as long as it says. -/
structure HasArrays (tc : AlignedTypeCode) : Prop where
  names : tc.info.kind.hasMembers = true → tc.info.kind ≠ .value →
    tc.info.subnames.length = tc.subParts
  labels : tc.info.kind = .union → tc.info.sublabels.length = tc.subtypes.length
  switched : tc.info.kind = .union →
    ∃ d, tc.discriminator = some d ∧ d.plain.skipAlias.kind.switches = true

/-- No enumeration, not the index behind the last member, and not the last label of eight bytes. -/
structure SafeIndex (tc : AlignedTypeCode) (index : Nat) : Prop where
  kind : tc.info.kind ≠ .enum
  inside : tc.info.kind.hasMembers = true → index ≠ tc.subParts
  label : tc.info.kind = .union → ∀ d, tc.discriminator = some d →
    d.plain.skipAlias.kind.sizeof ≤ 4 ∨ index + 1 ≠ tc.subParts

section
variable {host : Endian} {tc : AlignedTypeCode} {index : Nat}

theorem subParts_eq (hk : tc.info.kind.hasMemberTypes = true) (hv : tc.info.kind ≠ .value) :
    tc.subParts = tc.subtypes.length := by
  cases h : tc.info.kind <;> simp [TCKind.hasMemberTypes, AlignedTypeCode.subParts, h] at hk hv ⊢

theorem label_answers (ha : HasArrays tc) (hk : tc.info.kind = .union)
    (hlt : index < tc.subParts) :
    (∃ a, memberLabel host tc index = .ok a) ↔
      ∀ d, tc.discriminator = some d →
        d.plain.skipAlias.kind.sizeof ≤ 4 ∨ index + 1 ≠ tc.subParts := by
  obtain ⟨d, hd, hs⟩ := ha.switched hk
  have hlabels := ha.labels hk
  have hparts := @subParts_eq tc (by rw [hk]; rfl) (by rw [hk]; simp)
  have hsize : d.plain.skipAlias.kind.sizeof ≤ 4 ∨ d.plain.skipAlias.kind.sizeof = 8 := by
    cases hkd : d.plain.skipAlias.kind <;> simp [TCKind.switches, TCKind.sizeof, hkd] at hs ⊢
  have hwild := @copyLabel_wild_iff host tc.info.sublabels d index
  rw [memberLabel, if_pos hk, if_neg (by omega)]
  simp only [hd, Option.some.injEq, forall_eq']
  have hor : (∃ value, copyLabel host tc.info.sublabels d index = .ok value) ∨
      copyLabel host tc.info.sublabels d index = .wild := by
    rw [copyLabel]
    split
    · exact .inl ⟨_, rfl⟩
    · exact .inr rfl
  rcases hor with ⟨value, hvalue⟩ | hw
  · have hnot : ¬ copyLabel host tc.info.sublabels d index = .wild := by
      rw [hvalue]
      nofun
    rw [hwild] at hnot
    simp only [hvalue]
    refine ⟨fun _ => ?_, fun _ => ⟨_, rfl⟩⟩
    omega
  · simp only [hw]
    have hlt' := hwild.1 hw
    refine ⟨?_, ?_⟩
    · rintro ⟨a, ha⟩
      cases ha
    · intro hor
      omega

theorem memberName_answers (ha : HasArrays tc) :
    AnswersWithin (tc.info.kind.hasMembers = true) (index < tc.subParts) (memberName tc index) ↔
      (tc.info.kind.hasMembers = true → index ≠ tc.subParts) := by
  constructor
  · rintro ⟨-, hbounds, -⟩ hm heq
    have hname := hbounds hm (by omega)
    rw [memberName, if_pos hm, if_neg (by omega)] at hname
    exact Inspected.at?_ne_bounds _ _ hname
  · intro hne
    refine ⟨?_, ?_, ?_⟩
    · intro hm hlt
      have hv : tc.info.kind ≠ .value := by
        intro hv
        simp [AlignedTypeCode.subParts, hv] at hlt
      have hlen := ha.names hm hv
      rw [memberName, if_pos hm, if_neg (by omega)]
      exact ⟨_, Inspected.at?_eq_ok.2 (List.getElem?_eq_getElem (by omega))⟩
    · intro hm hlt
      have hne' := hne hm
      rw [memberName, if_pos hm, if_pos (by omega)]
    · intro hm
      rw [memberName, if_neg hm]

theorem memberType_answers :
    AnswersWithin (tc.info.kind.hasMemberTypes = true) (index < tc.subParts) (memberType tc index) ↔
      tc.info.kind ≠ .enum ∧ (tc.info.kind.hasMemberTypes = true → index ≠ tc.subParts) := by
  have hboth : tc.info.kind.hasMemberTypes = true → tc.info.kind.hasMembers = true := by
    cases tc.info.kind <;> simp [TCKind.hasMemberTypes, TCKind.hasMembers]
  constructor
  · rintro ⟨-, hbounds, hbad⟩
    refine ⟨?_, ?_⟩
    · -- an enumeration passes the test of the kind
      intro he
      have htype := hbad (by rw [he]; simp [TCKind.hasMemberTypes])
      rw [memberType, if_pos (by rw [he]; rfl)] at htype
      split at htype
      · cases htype
      · exact Inspected.at?_ne_badKind _ _ htype
    · intro hm heq
      have htype := hbounds hm (by omega)
      rw [memberType, if_pos (hboth hm), if_neg (by omega)] at htype
      exact Inspected.at?_ne_bounds _ _ htype
  · rintro ⟨he, hne⟩
    refine ⟨?_, ?_, ?_⟩
    · intro hm hlt
      have hv : tc.info.kind ≠ .value := by
        intro hv
        simp [AlignedTypeCode.subParts, hv] at hlt
      have hlen := subParts_eq hm hv
      rw [memberType, if_pos (hboth hm), if_neg (by omega)]
      exact ⟨_, Inspected.at?_eq_ok.2 (List.getElem?_eq_getElem (by omega))⟩
    · intro hm hlt
      have hne' := hne hm
      rw [memberType, if_pos (hboth hm), if_pos (by omega)]
    · intro hm
      rw [memberType, if_neg]
      cases hk : tc.info.kind <;> simp [TCKind.hasMemberTypes, TCKind.hasMembers, hk] at hm he ⊢

/-- Where every inspector does what it should. -/
theorem inspectedSafely_iff (ha : HasArrays tc) :
    InspectedSafely host tc index ↔ SafeIndex tc index := by
  constructor
  · intro h
    refine ⟨(memberType_answers.1 h.type).1, (memberName_answers ha).1 h.name, ?_⟩
    intro hk d hd
    by_cases hlast : index + 1 = tc.subParts
    · have hlabel := h.label.1 hk (by omega)
      exact (label_answers ha hk (by omega)).1 hlabel d hd
    · exact .inr hlast
  · intro h
    have hunion : tc.info.kind = .union → tc.info.kind.hasMembers = true := by
      intro hk
      rw [hk]
      rfl
    refine ⟨?_, (memberName_answers ha).2 h.inside, memberType_answers.2 ⟨h.kind, ?_⟩, ?_, ?_, ?_⟩
    · refine ⟨fun hm _ => ⟨_, if_pos hm⟩, fun _ hn => absurd trivial hn, fun hm => if_neg hm⟩
    · intro hm
      apply h.inside
      cases hk : tc.info.kind <;> simp [TCKind.hasMemberTypes, TCKind.hasMembers, hk] at hm ⊢
    · refine ⟨?_, ?_, fun hk => if_neg hk⟩
      · intro hk hlt
        exact (label_answers ha hk hlt).2 (h.label hk)
      · intro hk hlt
        have hne := h.inside (hunion hk)
        rw [memberLabel, if_pos hk, if_pos (by omega)]
    · refine ⟨?_, fun _ hn => absurd trivial hn, fun hk => if_neg hk⟩
      intro hk _
      obtain ⟨d, hd, -⟩ := ha.switched hk
      exact ⟨d, by rw [discriminatorType, if_pos hk, hd]⟩
    · exact ⟨fun hk _ => ⟨_, if_pos hk⟩, fun _ hn => absurd trivial hn, fun hk => if_neg hk⟩

end

/-- Where the makers and the inspectors of TypeCodes agree, and where the inspectors are safe. -/
theorem inspection_agrees_iff {host : Endian} (id name : List UInt8)
    (structMembers : List StructMember) (enumMembers : List (List UInt8))
    {discriminator : AlignedTypeCode} {members : List UnionMember} {kind : TCKind}
    (h : CreatedLabels discriminator members kind)
    (ho : ∀ member ∈ members, member.labelType.info.kind = .octet → member.labelValue < 256)
    {tc : AlignedTypeCode} (ha : HasArrays tc) (index : Nat) :
    (ReportsMembers structMembers (createStructTc id name structMembers) ∧
      ReportsMembers structMembers (createExceptionTc id name structMembers) ∧
      memberCount (createEnumTc id name enumMembers) = .ok enumMembers.length ∧
      ∀ (i : Nat) (member : List UInt8), enumMembers[i]? = some member →
        memberName (createEnumTc id name enumMembers) i = .ok member) ∧
    ((∃ utc, createUnionTc id name discriminator members = some utc ∧
        ReportsUnion host discriminator members utc) ↔
      UnionRepresented host discriminator kind members) ∧
    (InspectedSafely host tc index ↔ SafeIndex tc index) := by
  obtain ⟨hstruct, hexcept⟩ := createStructTc_reports id name structMembers
  obtain ⟨hcount, hnames⟩ := createEnumTc_reports id name enumMembers
  exact ⟨⟨hstruct, hexcept, hcount, hnames⟩, createUnionTc_reports_iff id name h ho,
    inspectedSafely_iff ha⟩

/-- A union over `long` with one arm, and a structure with one member. -/
def longTc : AlignedTypeCode := AlignedTypeCode.staticTc .long "long"

def longArm : UnionMember := ⟨ascii "a", longTc, 7, longTc⟩

theorem inspection_agrees_longArm :
    (∃ utc, createUnionTc [] [] longTc [longArm] = some utc ∧
      ReportsUnion .big longTc [longArm] utc) ∧
    InspectedSafely .big (createStructTc [] [] [⟨ascii "a", longTc⟩]) 0 := by
  have h : CreatedLabels longTc [longArm] .long := by
    refine ⟨rfl, rfl, ?_, by decide⟩
    intro member hm
    rw [List.mem_singleton.1 hm]
    exact .inr ⟨rfl, by decide⟩
  have ho : ∀ member ∈ [longArm], member.labelType.info.kind = .octet →
      member.labelValue < 256 := by
    intro member hm _
    rw [List.mem_singleton.1 hm]
    decide
  have ha : HasArrays (createStructTc [] [] [⟨ascii "a", longTc⟩]) := ⟨fun _ _ => rfl, nofun, nofun⟩
  have hiff := @inspection_agrees_iff .big [] [] [] [] longTc [longArm] .long h ho _ ha 0
  refine ⟨hiff.2.1.2 ⟨?_, ?_, ?_⟩, hiff.2.2.2 ⟨nofun, fun _ => nofun, nofun⟩⟩
  · intro member hm
    rw [List.mem_singleton.1 hm]
    exact .inr ⟨nofun, rfl⟩
  · exact .inr (by decide)
  · intro member hm
    rw [List.mem_singleton.1 hm]
    exact .inr (.inl rfl)

/-- The name of the first member of a structure that has none is asked for. -/
theorem empty_struct_wild :
    HasArrays (createStructTc [] [] []) ∧ memberName (createStructTc [] [] []) 0 = .wild ∧
      ¬ InspectedSafely .little (createStructTc [] [] []) 0 := by
  have hwild : memberName (createStructTc [] [] []) 0 = .wild := rfl
  refine ⟨⟨fun _ _ => rfl, nofun, nofun⟩, hwild, fun h => ?_⟩
  have hname := h.name.2.1 rfl (by decide)
  rw [hwild] at hname
  cases hname

end ORBit2
