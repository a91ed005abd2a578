import ORBit2.IdlTypes
import ORBit2.Layout
import ORBit2.TypeCodeCodec

/-! TypeCodes that `CORBA_ORB_create_struct_tc` and its kin build at run time, their field
`c_align`, and the layout that `ORBit_gather_alloc_info` computes from it. -/

set_option autoImplicit false

namespace ORBit2
open Words

/-- `ALIGN_VALUE`; both operands are cast to `gulong`. -/
def alignValue (this : Nat) (boundary : Int) : Nat :=
  ((BitVec.ofNat 64 this + (BitVec.ofInt 64 boundary - 1)) &&&
    ~~~(BitVec.ofInt 64 boundary - 1)).toNat

/-- No bits are left at the boundary zero. -/
theorem alignValue_zero (this : Nat) : alignValue this 0 = 0 := by
  have h : ~~~(BitVec.ofInt 64 0 - 1) = 0 := by decide
  rw [alignValue, h]
  simp

/-- `struct CORBA_TypeCode_struct` with its field `c_align`. -/
inductive AlignedTypeCode where
  | node (info : TCInfo) (cAlign : Int) (subtypes : List AlignedTypeCode)
      (discriminator : Option AlignedTypeCode)
  deriving Repr

namespace AlignedTypeCode

@[grind =] def info : AlignedTypeCode → TCInfo
  | .node info _ _ _ => info

@[grind =] def cAlign : AlignedTypeCode → Int
  | .node _ cAlign _ _ => cAlign

mutual

@[grind =] def plain : AlignedTypeCode → CTypeCode
  | .node info _ subtypes discriminator =>
      .node info (allPlain subtypes) (discriminatorPlain discriminator)

@[grind =] def allPlain : List AlignedTypeCode → List CTypeCode
  | [] => []
  | tc :: tcs => plain tc :: allPlain tcs

@[grind =] def discriminatorPlain : Option AlignedTypeCode → Option CTypeCode
  | none => none
  | some tc => some (plain tc)

end

mutual

/-- `c_align` is what `ORBit_TC_find_c_alignment` computes, at every node. -/
@[grind =] def aligned : AlignedTypeCode → Bool
  | .node info cAlign subtypes discriminator =>
      cAlign == (plain (.node info cAlign subtypes discriminator)).findCAlignment &&
        allAligned subtypes && discriminatorAligned discriminator

@[grind =] def allAligned : List AlignedTypeCode → Bool
  | [] => true
  | tc :: tcs => aligned tc && allAligned tcs

@[grind =] def discriminatorAligned : Option AlignedTypeCode → Bool
  | none => true
  | some tc => aligned tc

end

/-- The `c_align` of the last arm of a union that is more aligned than the arm before it. -/
@[grind =] def lastRise : (prevalign : Int) → Option Int → List AlignedTypeCode → Option Int
  | _, n, [] => n
  | prevalign, n, tc :: tcs =>
      lastRise tc.cAlign (if prevalign < tc.cAlign then some tc.cAlign else n) tcs

/-- Where the body of a union begins behind a discriminator of the given size. -/
def bodyOffset (subtypes : List AlignedTypeCode) (sum : Nat) : Nat :=
  match lastRise 1 none subtypes with
  | some align => alignValue sum align
  | none => sum

mutual

/-- `ORBit_gather_alloc_info`. -/
@[grind =] def gatherAllocInfo : AlignedTypeCode → Nat
  | .node info cAlign subtypes discriminator =>
      match info.kind with
      | .alias => gatherHead subtypes
      | .except | .struct => alignValue (gatherMembers 0 subtypes) cAlign
      | .union =>
          alignValue (bodyOffset subtypes (gatherDiscriminator discriminator) +
            gatherWidest subtypes) cAlign
      | .array => gatherHead subtypes * info.length
      | kind => kind.sizeof

@[grind =] def gatherHead : List AlignedTypeCode → Nat
  | [] => 0
  | tc :: _ => gatherAllocInfo tc

@[grind =] def gatherMembers (sum : Nat) : List AlignedTypeCode → Nat
  | [] => sum
  | tc :: tcs => gatherMembers (alignValue sum tc.cAlign + gatherAllocInfo tc) tcs

@[grind =] def gatherWidest : List AlignedTypeCode → Nat
  | [] => 0
  | tc :: tcs => max (gatherAllocInfo tc) (gatherWidest tcs)

@[grind =] def gatherDiscriminator : Option AlignedTypeCode → Nat
  | none => 0
  | some tc => gatherAllocInfo tc

end

/-- Where the members of a struct begin behind `sum`. -/
@[grind =] def memberOffsets (sum : Nat) : List AlignedTypeCode → List Nat
  | [] => []
  | tc :: tcs =>
      alignValue sum tc.cAlign ::
        memberOffsets (alignValue sum tc.cAlign + tc.gatherAllocInfo) tcs

/-- Where the members of a struct, or the arms of a union, begin. -/
def offsets : AlignedTypeCode → List Nat
  | .node info _ subtypes discriminator =>
      match info.kind with
      | .except | .struct => memberOffsets 0 subtypes
      | .union => [bodyOffset subtypes (gatherDiscriminator discriminator)]
      | _ => []

end AlignedTypeCode

/-! ### What the decoder leaves -/

/-- The `c_align` of the static TypeCodes of `DEF_TC_BASIC`, `TC_null` and `TC_void`. -/
def TCKind.staticAlign (kind : TCKind) : Int :=
  if kind = .null ∨ kind = .void then -1 else kind.alignof

mutual

/-- A TypeCode that `tc_dec` has made: a kind without an encoder is its static TypeCode, any
other node gets what `ORBit_TC_find_c_alignment` computes. -/
@[grind =] def CTypeCode.decoded : CTypeCode → AlignedTypeCode
  | .node info subtypes discriminator =>
      .node info
        (if info.kind.tkType = .empty then info.kind.staticAlign
          else (CTypeCode.node info subtypes discriminator).findCAlignment)
        (CTypeCode.allDecoded subtypes) (CTypeCode.discriminatorDecoded discriminator)

@[grind =] def CTypeCode.allDecoded : List CTypeCode → List AlignedTypeCode
  | [] => []
  | tc :: tcs => CTypeCode.decoded tc :: CTypeCode.allDecoded tcs

@[grind =] def CTypeCode.discriminatorDecoded : Option CTypeCode → Option AlignedTypeCode
  | none => none
  | some tc => some (CTypeCode.decoded tc)

end

/-! ### `CORBA_ORB_create_struct_tc` and its kin

`ORBit_TypeCode_allocate` clears the structure, and none of the functions below sets
`c_align`. -/

namespace AlignedTypeCode

/-- `ORBit_TypeCode_allocate`. -/
def allocate (kind : TCKind) : TCInfo := ⟨kind, 0, [], [], [], [], 0, 0, 0⟩

structure StructMember where
  name : List UInt8
  type : AlignedTypeCode

/-- `CORBA_ORB_create_struct_tc`. -/
def createStructTc (id name : List UInt8) (members : List StructMember) : AlignedTypeCode :=
  .node { allocate .struct with
      name := name, repoId := id, length := members.length, subnames := members.map (·.name) }
    0 (members.map (·.type)) none

/-- A member of a union. The label is an any; its value is kept as the word in memory. -/
structure UnionMember where
  name : List UInt8
  labelType : AlignedTypeCode
  labelValue : Nat
  type : AlignedTypeCode

/-- `tc = tc->subtypes [0]`, for one alias. -/
def skipOneAlias : AlignedTypeCode → AlignedTypeCode
  | .node info cAlign subtypes discriminator =>
      match info.kind, subtypes with
      | .alias, tc :: _ => tc
      | _, _ => .node info cAlign subtypes discriminator

/-- `copy_case_value`; `none` is its assertion. -/
def copyCaseValue (type : AlignedTypeCode) (value : Nat) : Option Int :=
  match type.skipOneAlias.info.kind with
  | .ulong | .long | .enum => some (signed 4 (value % 2^32))
  | .ushort | .short => some (signed 2 (value % 2^16))
  | .char | .boolean | .octet => some (value % 2^8 : Nat)
  | _ => none

/-- `default_index` behind the members from `index` on. -/
@[grind =] def defaultIndexFrom : (index : Nat) → (found : Int) → List UnionMember → Int
  | _, found, [] => found
  | index, found, member :: members =>
      defaultIndexFrom (index+1)
        (if member.labelType.info.kind = .octet then (index : Int) else found) members

/-- `CORBA_ORB_create_union_tc`. -/
def createUnionTc (id name : List UInt8) (discriminatorType : AlignedTypeCode)
    (members : List UnionMember) : Option AlignedTypeCode := do
  let sublabels ← members.mapM fun member => copyCaseValue member.labelType member.labelValue
  some (.node { allocate .union with
      name := name, repoId := id, length := members.length, subnames := members.map (·.name),
      sublabels := sublabels, defaultIndex := defaultIndexFrom 0 (-1) members }
    0 (members.map (·.type)) (some discriminatorType))

/-- `CORBA_ORB_create_enum_tc`. -/
def createEnumTc (id name : List UInt8) (members : List (List UInt8)) : AlignedTypeCode :=
  .node { allocate .enum with
      name := name, repoId := id, length := members.length, subnames := members } 0 [] none

/-- `CORBA_ORB_create_alias_tc`. -/
def createAliasTc (id name : List UInt8) (originalType : AlignedTypeCode) : AlignedTypeCode :=
  .node { allocate .alias with name := name, repoId := id, length := 1 } 0 [originalType] none

/-- `CORBA_ORB_create_exception_tc`. -/
def createExceptionTc (id name : List UInt8) (members : List StructMember) : AlignedTypeCode :=
  .node { allocate .except with
      name := name, repoId := id, length := members.length, subnames := members.map (·.name) }
    0 (members.map (·.type)) none

/-- `CORBA_ORB_create_interface_tc`. -/
def createInterfaceTc (id name : List UInt8) : AlignedTypeCode :=
  .node { allocate .objref with name := name, repoId := id } 0 [] none

/-- `CORBA_ORB_create_string_tc` and `CORBA_ORB_create_wstring_tc`. -/
def createStringTc (bound : Nat) : AlignedTypeCode :=
  .node { allocate .string with length := bound } 0 [] none

def createWstringTc (bound : Nat) : AlignedTypeCode :=
  .node { allocate .wstring with length := bound } 0 [] none

/-- `CORBA_ORB_create_fixed_tc`. -/
def createFixedTc (digits : Nat) (scale : Int) : AlignedTypeCode :=
  .node { allocate .fixed with digits := digits, scale := scale } 0 [] none

/-- `CORBA_ORB_create_sequence_tc`. -/
def createSequenceTc (bound : Nat) (elementType : AlignedTypeCode) : AlignedTypeCode :=
  .node { allocate .sequence with length := bound } 0 [elementType] none

/-- `CORBA_ORB_create_array_tc`. -/
def createArrayTc (length : Nat) (elementType : AlignedTypeCode) : AlignedTypeCode :=
  .node { allocate .array with length := length } 0 [elementType] none

end AlignedTypeCode

/-- The basic kinds, and the names of their static TypeCodes. -/
def TCKind.staticName : TCKind → Option String
  | .string => some "string"
  | .wstring => some "wstring"
  | .objref => some "Object"
  | kind => kind.basicName

namespace AlignedTypeCode

/-- `DEF_TC_BASIC`, `TC_null` and `TC_void`. -/
def staticTc (kind : TCKind) (name : String) : AlignedTypeCode :=
  let repoId := "IDL:omg.org/CORBA/" ++ (if kind = .null then "Null" else name) ++ ":1.0"
  .node { allocate kind with
      name := ascii name, repoId := ascii repoId,
      defaultIndex := if kind = .null ∨ kind = .void then 0 else -1 }
    kind.staticAlign [] none

/-- A TypeCode is one of the basic kinds, or made by the functions above of such. -/
inductive Built : AlignedTypeCode → Prop
  | static {kind : TCKind} {name : String} (h : kind.staticName = some name) :
      Built (staticTc kind name)
  | struct (id name : List UInt8) {members : List StructMember}
      (h : ∀ member ∈ members, Built member.type) : Built (createStructTc id name members)
  | union {id name : List UInt8} {discriminatorType tc : AlignedTypeCode}
      {members : List UnionMember} (hd : Built discriminatorType)
      (h : ∀ member ∈ members, Built member.type)
      (htc : createUnionTc id name discriminatorType members = some tc) : Built tc
  | enum (id name : List UInt8) (members : List (List UInt8)) : Built (createEnumTc id name members)
  | alias (id name : List UInt8) {originalType : AlignedTypeCode} (h : Built originalType) :
      Built (createAliasTc id name originalType)
  | exception (id name : List UInt8) {members : List StructMember}
      (h : ∀ member ∈ members, Built member.type) : Built (createExceptionTc id name members)
  | interface (id name : List UInt8) : Built (createInterfaceTc id name)
  | string (bound : Nat) : Built (createStringTc bound)
  | wstring (bound : Nat) : Built (createWstringTc bound)
  | fixed (digits : Nat) (scale : Int) : Built (createFixedTc digits scale)
  | sequence (bound : Nat) {elementType : AlignedTypeCode} (h : Built elementType) :
      Built (createSequenceTc bound elementType)
  | array (length : Nat) {elementType : AlignedTypeCode} (h : Built elementType) :
      Built (createArrayTc length elementType)

theorem aligned_cAlign_pos {tc : AlignedTypeCode} (h : tc.aligned = true) : 0 < tc.cAlign := by
  cases tc with
  | node info cAlign subtypes discriminator =>
    rw [aligned, Bool.and_eq_true, Bool.and_eq_true, beq_iff_eq] at h
    have hp := (plain (node info cAlign subtypes discriminator)).findCAlignment_pos
    have hc : (node info cAlign subtypes discriminator).cAlign = cAlign := rfl
    rw [hc, h.1.1]
    omega

/-- What is built is a static TypeCode, or its `c_align` is still zero. -/
theorem Built.cases {tc : AlignedTypeCode} (h : Built tc) :
    (∃ kind name, kind.staticName = some name ∧ tc = staticTc kind name) ∨ tc.cAlign = 0 := by
  cases h with
  | static h => exact .inl ⟨_, _, h, rfl⟩
  | union hd h htc =>
    unfold createUnionTc at htc
    simp only [Option.bind_eq_bind, Option.bind_eq_some_iff, Option.some.injEq] at htc
    obtain ⟨sublabels, _, rfl⟩ := htc
    exact .inr rfl
  | _ => exact .inr rfl

/-- A struct, a union or an exception that has been built takes no bytes at all. -/
theorem gatherAllocInfo_unaligned {tc : AlignedTypeCode} (h : tc.cAlign = 0)
    (hk : tc.info.kind = .struct ∨ tc.info.kind = .except ∨ tc.info.kind = .union) :
    tc.gatherAllocInfo = 0 := by
  cases tc with
  | node info cAlign subtypes discriminator =>
    have hc : cAlign = 0 := h
    have hi : info.kind = .struct ∨ info.kind = .except ∨ info.kind = .union := hk
    subst hc
    unfold gatherAllocInfo
    rcases hi with hi | hi | hi <;> simp [hi, alignValue_zero]

/-- A TypeCode lays out values like the one that its bytes are decoded into: `c_align` is right
at every node, and the size and the offsets are those of the decoded TypeCode. -/
structure LaysOutLikeDecoded (tc : AlignedTypeCode) : Prop where
  aligned : tc.aligned = true
  decoded : ∀ (g : TCGraph) (sender : Endian) (size : Nat) (r : Encoded) (rest : List UInt8)
    (c : RecvCursor) (d : Decoded) (s : TcState) (t : CTypeCode),
    g.plain = tc.plain → encodeTypeCode sender g size = some r →
    12 + size + r.bytes.length < 2^32 → Receives sender size r.bytes rest c →
    decodeTypeCode c = .ok d s → d.read = some t →
    tc.gatherAllocInfo = t.decoded.gatherAllocInfo ∧ tc.offsets = t.decoded.offsets

theorem staticTc_parts {kind : TCKind} {name : String} (h : kind.staticName = some name) :
    ((staticTc kind name).info.ranged && (staticTc kind name).info.parts 0 none) = true := by
  cases kind <;> simp only [TCKind.staticName, TCKind.basicName, Option.some.injEq, reduceCtorEq] at h
    <;> subst h <;> decide

theorem staticTc_sendable {kind : TCKind} {name : String} (h : kind.staticName = some name)
    (addr : Nat) : (TCGraph.node addr (staticTc kind name).info [] none).sendable = true := by
  have hp := staticTc_parts h
  rw [Bool.and_eq_true] at hp
  simp [TCGraph.sendable, TCGraph.allSendable, TCGraph.discriminatorSendable, hp]

/-- The kinds whose size does not come from other TypeCodes. -/
theorem gatherAllocInfo_leaf {kind : TCKind} {name : String} (h : kind.staticName = some name)
    (info : TCInfo) (hi : info.kind = kind) (cAlign : Int) :
    (node info cAlign [] none).gatherAllocInfo = kind.sizeof ∧
      (node info cAlign [] none).offsets = [] := by
  subst hi
  unfold gatherAllocInfo offsets
  cases hk : info.kind <;> simp [TCKind.staticName, TCKind.basicName, hk] at h ⊢

theorem staticTc_aligned {kind : TCKind} {name : String} (hn : kind ≠ .null) (hv : kind ≠ .void)
    (h : kind.staticName = some name) : (staticTc kind name).aligned = true := by
  cases kind <;> simp [TCKind.staticName, TCKind.basicName] at h hn hv ⊢ <;> rfl

end AlignedTypeCode

/-! A TypeCode without parts goes out and comes back as the same one. -/

theorem TCGraph.eq_leaf {g : TCGraph} {info : TCInfo} (h : g.plain = .node info [] none) :
    ∃ addr, g = .node addr info [] none := by
  obtain ⟨addr, info', subtypes, discriminator⟩ := g
  rw [plain, CTypeCode.node.injEq] at h
  obtain ⟨rfl, hs, hd⟩ := h
  cases subtypes with
  | cons sub subtypes => cases hs
  | nil =>
    cases discriminator with
    | some d => cases hd
    | none => exact ⟨addr, rfl⟩

theorem TCGraph.consistent_leaf (addr : Nat) (info : TCInfo) :
    (TCGraph.node addr info [] none).Consistent := by
  intro node hm node' hm' _
  have hnodes : ∀ n ∈ (TCGraph.node addr info [] none).nodes, n = .node addr info [] none := by
    intro n hn
    simp only [nodes, discriminatorNodes, allNodes, List.append_nil] at hn
    split at hn
    · cases hn
    · exact List.mem_singleton.1 hn
  rw [hnodes node hm, hnodes node' hm']

theorem TCGraph.read_leaf {addr : Nat} {info : TCInfo} {sender : Endian} {size : Nat} {r : Encoded}
    {rest : List UInt8} {c : RecvCursor} {d : Decoded} {s : TcState} {t : CTypeCode}
    (hg : (TCGraph.node addr info [] none).sendable = true)
    (henc : encodeTypeCode sender (.node addr info [] none) size = some r)
    (hlt : 12 + size + r.bytes.length < 2^32) (hr : Receives sender size r.bytes rest c)
    (hd : decodeTypeCode c = .ok d s) (ht : d.read = some t) : t = .node info.sent [] none := by
  obtain ⟨s', hdec, _⟩ := decodeTypeCode_encoded hg (consistent_leaf addr info) henc hlt hr
  rw [hd] at hdec
  have himage : d = (TCGraph.node addr info [] none).image := by
    split at hdec
    · injection hdec
    · cases hdec
  have hread := read_image _ hg
  rw [← himage, ht, Option.some.injEq] at hread
  exact hread

namespace AlignedTypeCode

/-- The functions that build TypeCodes leave `c_align` at zero, so that only the TypeCodes of
the basic kinds, `TC_null` and `TC_void` apart, lay out values like decoded ones. -/
theorem laysOutLikeDecoded_iff {tc : AlignedTypeCode} (h : Built tc) :
    LaysOutLikeDecoded tc ↔
      ∃ kind name, kind.staticName = some name ∧ kind ≠ .null ∧ kind ≠ .void ∧
        tc = staticTc kind name := by
  constructor
  · intro hl
    have hpos := aligned_cAlign_pos hl.aligned
    rcases h.cases with ⟨kind, name, hk, rfl⟩ | h0
    · refine ⟨kind, name, hk, ?_, ?_, rfl⟩
      · rintro rfl
        exact absurd hpos (show ¬ (0 : Int) < -1 by decide)
      · rintro rfl
        exact absurd hpos (show ¬ (0 : Int) < -1 by decide)
    · omega
  · rintro ⟨kind, name, hk, hn, hv, rfl⟩
    refine ⟨staticTc_aligned hn hv hk, ?_⟩
    intro g sender size r rest c d s t hg henc hlt hr hd ht
    have hplain : g.plain = .node (staticTc kind name).info [] none := hg
    obtain ⟨addr, rfl⟩ := TCGraph.eq_leaf hplain
    have hread := TCGraph.read_leaf (staticTc_sendable hk addr) henc hlt hr hd ht
    have ht' : t.decoded = node (staticTc kind name).info.sent
        (if (staticTc kind name).info.sent.kind.tkType = .empty
          then (staticTc kind name).info.sent.kind.staticAlign
          else (CTypeCode.node (staticTc kind name).info.sent [] none).findCAlignment) [] none := by
      rw [hread]
      rfl
    have hl := gatherAllocInfo_leaf hk (staticTc kind name).info rfl kind.staticAlign
    have hr' := gatherAllocInfo_leaf hk (staticTc kind name).info.sent
      (TCInfo.sent_kind (staticTc kind name).info)
    rw [ht']
    exact ⟨hl.1.trans (hr' _).1.symm, hl.2.trans (hr' _).2.symm⟩

/-- `struct S { octet a; long b; };` -/
def octetAndLong : AlignedTypeCode :=
  createStructTc (ascii "IDL:S:1.0") (ascii "S")
    [⟨ascii "a", staticTc .octet "octet"⟩, ⟨ascii "b", staticTc .long "long"⟩]

theorem octetAndLong_built : Built octetAndLong := by
  refine Built.struct _ _ ?_
  intro member hm
  rcases List.mem_cons.1 hm with rfl | hm
  · exact Built.static rfl
  · rcases List.mem_cons.1 hm with rfl | hm
    · exact Built.static rfl
    · cases hm

theorem laysOutLikeDecoded_octetAndLong : LaysOutLikeDecoded octetAndLong ↔
    ∃ kind name, kind.staticName = some name ∧ kind ≠ .null ∧ kind ≠ .void ∧
      octetAndLong = staticTc kind name :=
  laysOutLikeDecoded_iff octetAndLong_built

/-- It takes no bytes where the decoded TypeCode takes eight. -/
theorem not_laysOutLikeDecoded_octetAndLong : Built octetAndLong ∧
    ¬ LaysOutLikeDecoded octetAndLong ∧ octetAndLong.gatherAllocInfo = 0 ∧
    octetAndLong.plain.decoded.gatherAllocInfo = 8 := by
  refine ⟨octetAndLong_built, ?_, gatherAllocInfo_unaligned rfl (.inl rfl), by decide⟩
  intro h
  exact absurd (aligned_cAlign_pos h.aligned) (by decide_cbv)

end AlignedTypeCode
end ORBit2
