import ORBit2.TypeCode
import ORBit2.CTypeCode

/-! How much memory a value takes and how it is aligned, on a host with 64-bit pointers.
Sizes are natural numbers: the overflow of the `int sum` of a TypeCode of more than two
gigabytes is left out. -/

set_option autoImplicit false

namespace ORBit2
open Words

/-- `sizeof` of the C type that stands for a kind without parts. -/
def TCKind.sizeof : TCKind → Nat
  | .boolean | .char | .octet => 1
  | .short | .ushort | .wchar => 2
  | .long | .ulong | .enum | .float => 4
  | .longlong | .ulonglong | .double | .longdouble => 8
  | .string | .wstring | .objref | .typeCode => 8
  | .any | .sequence | .principal => 24
  | .fixed => 6
  | _ => 0

/-- The `ORBIT_ALIGNOF_CORBA` constants. -/
def TCKind.alignof : TCKind → Nat
  | .short | .ushort | .wchar | .fixed => 2
  | .long | .ulong | .enum | .float => 4
  | .longlong | .ulonglong | .double | .longdouble => 8
  | .string | .wstring | .objref | .typeCode | .any | .sequence => 8
  | _ => 1

theorem TCKind.alignof_dvd_eight (k : TCKind) : k.alignof ∣ 8 := by cases k <;> decide

theorem TCKind.alignof_dvd_sizeof (k : TCKind) : k.alignof ∣ k.sizeof := by cases k <;> decide

namespace CTypeCode

mutual

/-- `ORBit_TC_find_c_alignment`, the value of every `c_align` field. -/
@[grind =] def findCAlignment : CTypeCode → Nat
  | .node info subtypes discriminator =>
      match info.kind with
      | .union => max (discriminatorAlignment discriminator) (widestAlignment subtypes)
      | .except | .struct => widestAlignment subtypes
      | .array | .alias => headAlignment subtypes
      | kind => kind.alignof

@[grind =] def widestAlignment : List CTypeCode → Nat
  | [] => 1
  | tc :: tcs => max (findCAlignment tc) (widestAlignment tcs)

@[grind =] def headAlignment : List CTypeCode → Nat
  | [] => 1
  | tc :: _ => findCAlignment tc

@[grind =] def discriminatorAlignment : Option CTypeCode → Nat
  | none => 1
  | some tc => findCAlignment tc

end

/-- The alignment of `subtypes [n]`, `n` being the last arm that is more aligned than the
arm before it. -/
@[grind =] def lastRise : Nat → Option Nat → List CTypeCode → Option Nat
  | _, n, [] => n
  | prevalign, n, tc :: tcs =>
      lastRise tc.findCAlignment (if prevalign < tc.findCAlignment then some tc.findCAlignment else n)
        tcs

/-- `sum` rounded up to the alignment of `subtypes [n]`. -/
def alignToRise (subtypes : List CTypeCode) (sum : Nat) : Nat :=
  match lastRise 1 none subtypes with
  | some align => alignUp sum align
  | none => sum

mutual

/-- `ORBit_gather_alloc_info`. -/
@[grind =] def gatherAllocInfo : CTypeCode → Nat
  | .node info subtypes discriminator =>
      match info.kind with
      | .alias => gatherHead subtypes
      | .except | .struct => alignUp (gatherMembers 0 subtypes) (widestAlignment subtypes)
      | .union =>
          let sum := alignToRise subtypes (gatherDiscriminator discriminator)
          alignUp (sum + gatherWidest subtypes)
            (max (discriminatorAlignment discriminator) (widestAlignment subtypes))
      | .array => gatherHead subtypes * info.length
      | kind => kind.sizeof

@[grind =] def gatherHead : List CTypeCode → Nat
  | [] => 0
  | tc :: _ => gatherAllocInfo tc

@[grind =] def gatherMembers (sum : Nat) : List CTypeCode → Nat
  | [] => sum
  | tc :: tcs => gatherMembers (alignUp sum tc.findCAlignment + gatherAllocInfo tc) tcs

@[grind =] def gatherWidest : List CTypeCode → Nat
  | [] => 0
  | tc :: tcs => max (gatherAllocInfo tc) (gatherWidest tcs)

@[grind =] def gatherDiscriminator : Option CTypeCode → Nat
  | none => 0
  | some tc => gatherAllocInfo tc

end

/-- `ORBit_alloc_tcval`: the bytes behind the prefix. The element size is a `guint` and so
is its product with the count. -/
def allocTcval (tc : CTypeCode) (elements : Nat) : Nat :=
  tc.gatherAllocInfo % 2^32 * elements % 2^32

/-- `ORBit_alloc_by_tc`, likewise. -/
def allocByTc (tc : CTypeCode) : Nat := tc.gatherAllocInfo % 2^32

/-- Of two divisors of eight the smaller one divides the larger. -/
theorem dvd_max_of_dvd_eight {a b : Nat} (ha : a ∣ 8) (hb : b ∣ 8) :
    a ∣ max a b ∧ b ∣ max a b ∧ max a b ∣ 8 := by
  have ha' : a ∈ Nat.divisors 8 := Nat.mem_divisors.2 ⟨ha, by omega⟩
  have hb' : b ∈ Nat.divisors 8 := Nat.mem_divisors.2 ⟨hb, by omega⟩
  rw [show Nat.divisors 8 = {1, 2, 4, 8} by decide] at ha' hb'
  simp only [Finset.mem_insert, Finset.mem_singleton] at ha' hb'
  rcases ha' with rfl | rfl | rfl | rfl <;> rcases hb' with rfl | rfl | rfl | rfl <;> decide

mutual

theorem findCAlignment_dvd_eight : (tc : CTypeCode) → tc.findCAlignment ∣ 8
  | .node info subtypes discriminator => by
    unfold findCAlignment
    split
    · exact (dvd_max_of_dvd_eight (discriminatorAlignment_dvd_eight discriminator)
        (widestAlignment_dvd_eight subtypes)).2.2
    · exact widestAlignment_dvd_eight subtypes
    · exact widestAlignment_dvd_eight subtypes
    · exact headAlignment_dvd_eight subtypes
    · exact headAlignment_dvd_eight subtypes
    · exact TCKind.alignof_dvd_eight info.kind

theorem widestAlignment_dvd_eight : (tcs : List CTypeCode) → widestAlignment tcs ∣ 8
  | [] => by simp [widestAlignment]
  | tc :: tcs => by
    rw [widestAlignment]
    exact (dvd_max_of_dvd_eight (findCAlignment_dvd_eight tc) (widestAlignment_dvd_eight tcs)).2.2

theorem headAlignment_dvd_eight : (tcs : List CTypeCode) → headAlignment tcs ∣ 8
  | [] => by simp [headAlignment]
  | tc :: _ => by
    rw [headAlignment]
    exact findCAlignment_dvd_eight tc

theorem discriminatorAlignment_dvd_eight :
    (discriminator : Option CTypeCode) → discriminatorAlignment discriminator ∣ 8
  | none => by simp [discriminatorAlignment]
  | some tc => by
    rw [discriminatorAlignment]
    exact findCAlignment_dvd_eight tc

end

theorem findCAlignment_pos (tc : CTypeCode) : 0 < tc.findCAlignment :=
  Nat.pos_of_dvd_of_pos tc.findCAlignment_dvd_eight (by omega)

theorem widestAlignment_pos (tcs : List CTypeCode) : 0 < widestAlignment tcs :=
  Nat.pos_of_dvd_of_pos (widestAlignment_dvd_eight tcs) (by omega)

theorem findCAlignment_dvd_widest {tc : CTypeCode} {tcs : List CTypeCode} (h : tc ∈ tcs) :
    tc.findCAlignment ∣ widestAlignment tcs := by
  induction tcs with
  | nil => cases h
  | cons tc' tcs ih =>
    have hd := dvd_max_of_dvd_eight tc'.findCAlignment_dvd_eight (widestAlignment_dvd_eight tcs)
    rw [widestAlignment]
    rcases List.mem_cons.1 h with rfl | h
    · exact hd.1
    · exact (ih h).trans hd.2.1

mutual

/-- Values that lie side by side are all aligned if the first one is. -/
theorem findCAlignment_dvd_gather : (tc : CTypeCode) → tc.findCAlignment ∣ tc.gatherAllocInfo
  | .node info subtypes discriminator => by
    unfold findCAlignment gatherAllocInfo
    cases info.kind with
    | struct => exact dvd_alignUp _ _
    | except => exact dvd_alignUp _ _
    | union => exact dvd_alignUp _ _
    | array => exact (headAlignment_dvd_gather subtypes).mul_right _
    | «alias» => exact headAlignment_dvd_gather subtypes
    | _ => exact TCKind.alignof_dvd_sizeof _

theorem headAlignment_dvd_gather : (tcs : List CTypeCode) → headAlignment tcs ∣ gatherHead tcs
  | [] => by simp [headAlignment]
  | tc :: _ => by
    rw [headAlignment, gatherHead]
    exact findCAlignment_dvd_gather tc

end

theorem gatherAllocInfo_skipAlias : (tc : CTypeCode) →
    tc.skipAlias.gatherAllocInfo = tc.gatherAllocInfo
  | .node info [] discriminator => by
    unfold skipAlias
    split
    · contradiction
    · rfl
  | .node info (sub :: subtypes) discriminator => by
    unfold skipAlias
    split
    · rename_i hk hs
      cases hs
      rw [gatherAllocInfo_skipAlias, gatherAllocInfo, hk, gatherHead]
    · rfl

theorem findCAlignment_skipAlias : (tc : CTypeCode) →
    tc.skipAlias.findCAlignment = tc.findCAlignment
  | .node info [] discriminator => by
    unfold skipAlias
    split
    · contradiction
    · rfl
  | .node info (sub :: subtypes) discriminator => by
    unfold skipAlias
    split
    · rename_i hk hs
      cases hs
      rw [findCAlignment_skipAlias, findCAlignment, hk, headAlignment]
    · rfl

/-! What is left of a TypeCode when its aliases are skipped is measured by its kind. -/

section Kinds
variable {tc : CTypeCode}

theorem gatherAllocInfo_record (h : tc.kind = .struct ∨ tc.kind = .except) :
    tc.gatherAllocInfo = alignUp (gatherMembers 0 tc.subtypes) tc.findCAlignment := by
  cases tc with
  | node info subtypes discriminator =>
    have hk : info.kind = .struct ∨ info.kind = .except := h
    rcases hk with hk | hk <;> simp [gatherAllocInfo, findCAlignment, CTypeCode.subtypes, hk]

theorem gatherAllocInfo_union (h : tc.kind = .union) :
    tc.gatherAllocInfo = alignUp (alignToRise tc.subtypes (gatherDiscriminator tc.discriminator) +
      gatherWidest tc.subtypes) tc.findCAlignment := by
  cases tc with
  | node info subtypes discriminator =>
    have hk : info.kind = .union := h
    simp [gatherAllocInfo, findCAlignment, CTypeCode.subtypes, CTypeCode.discriminator, hk]

theorem findCAlignment_record (h : tc.kind = .struct ∨ tc.kind = .except) :
    tc.findCAlignment = widestAlignment tc.subtypes := by
  cases tc with
  | node info subtypes discriminator =>
    have hk : info.kind = .struct ∨ info.kind = .except := h
    rcases hk with hk | hk <;> simp [findCAlignment, CTypeCode.subtypes, hk]

theorem findCAlignment_union (h : tc.kind = .union) :
    tc.findCAlignment =
      max (discriminatorAlignment tc.discriminator) (widestAlignment tc.subtypes) := by
  cases tc with
  | node info subtypes discriminator =>
    have hk : info.kind = .union := h
    simp [findCAlignment, CTypeCode.subtypes, CTypeCode.discriminator, hk]

theorem findCAlignment_array (h : tc.kind = .array) :
    tc.findCAlignment = (tc.subtypes.headD (basic .null)).findCAlignment := by
  cases tc with
  | node info subtypes discriminator =>
    have hk : info.kind = .array := h
    cases subtypes with
    | nil => simp [findCAlignment, headAlignment, CTypeCode.subtypes, hk, basic, TCKind.alignof]
    | cons sub subtypes => simp [findCAlignment, headAlignment, CTypeCode.subtypes, hk]

theorem gatherAllocInfo_array (h : tc.kind = .array) :
    tc.gatherAllocInfo = gatherHead tc.subtypes * tc.info.length := by
  cases tc with
  | node info subtypes discriminator =>
    have hk : info.kind = .array := h
    simp [gatherAllocInfo, CTypeCode.subtypes, CTypeCode.info, hk]

theorem gatherAllocInfo_leaf (h : tc.kind = .sequence ∨ tc.kind = .any) :
    tc.gatherAllocInfo = 24 := by
  cases tc with
  | node info subtypes discriminator =>
    have hk : info.kind = .sequence ∨ info.kind = .any := h
    rcases hk with hk | hk <;> simp [gatherAllocInfo, TCKind.sizeof, hk]

end Kinds

theorem gatherHead_eq (tc : CTypeCode) :
    gatherHead tc.subtypes = (tc.subtypes.headD (basic .null)).gatherAllocInfo := by
  cases h : tc.subtypes with
  | nil => rfl
  | cons sub subtypes => rfl

theorem le_gatherMembers (sum : Nat) (tcs : List CTypeCode) : sum ≤ gatherMembers sum tcs := by
  induction tcs generalizing sum with
  | nil => exact Nat.le_refl _
  | cons tc tcs ih =>
    have ha := le_alignUp sum tc.findCAlignment_pos
    have hi := ih (alignUp sum tc.findCAlignment + tc.gatherAllocInfo)
    rw [gatherMembers]
    omega

theorem gatherAllocInfo_le_widest {tc : CTypeCode} {tcs : List CTypeCode} (h : tc ∈ tcs) :
    tc.gatherAllocInfo ≤ gatherWidest tcs := by
  induction tcs with
  | nil => cases h
  | cons tc' tcs ih =>
    rw [gatherWidest]
    rcases List.mem_cons.1 h with rfl | h
    · exact le_max_left _ _
    · exact (ih h).trans (le_max_right _ _)

end CTypeCode
end ORBit2
