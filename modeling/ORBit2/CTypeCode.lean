import Mathlib

/-! `struct CORBA_TypeCode_struct`, for the code that walks C memory, takes TypeCodes
apart or sends them. -/

set_option autoImplicit false

namespace ORBit2

/-- `CORBA_TCKind`, up to `CORBA_tk_last`. -/
inductive TCKind where
  | null | void | short | long | ushort | ulong | float | double | boolean | char | octet | any
  | typeCode | principal | objref | struct | union | enum | string | sequence | array | alias
  | except | longlong | ulonglong | longdouble | wchar | wstring | fixed | value | valueBox
  | native | abstractInterface
  deriving DecidableEq, Repr

/-- The fields of a TypeCode that are not TypeCodes. -/
structure TCInfo where
  kind : TCKind
  length : Nat
  name : List UInt8
  repoId : List UInt8
  subnames : List (List UInt8)
  sublabels : List Int
  defaultIndex : Int
  digits : Nat
  scale : Int
  deriving DecidableEq, Repr

inductive CTypeCode where
  | node (info : TCInfo) (subtypes : List CTypeCode) (discriminator : Option CTypeCode)
  deriving Repr

namespace CTypeCode

def info : CTypeCode → TCInfo
  | .node info _ _ => info

def kind (tc : CTypeCode) : TCKind := tc.info.kind

def subtypes : CTypeCode → List CTypeCode
  | .node _ subtypes _ => subtypes

/-- `while (tc->kind == CORBA_tk_alias) tc = tc->subtypes [0];` -/
def skipAlias : CTypeCode → CTypeCode
  | .node info subtypes discriminator =>
      match info.kind, subtypes with
      | .alias, tc :: _ => skipAlias tc
      | _, _ => .node info subtypes discriminator

def discriminator : CTypeCode → Option CTypeCode
  | .node _ _ discriminator => discriminator

theorem skipAlias_of_ne {tc : CTypeCode} (h : tc.kind ≠ .alias) : tc.skipAlias = tc := by
  cases tc with
  | node info subtypes discriminator =>
    unfold skipAlias
    split
    · rename_i hk
      exact absurd hk h
    · rfl

mutual

/-- `ORBit_freekids_via_TypeCode_T` looks at the memory it is given. -/
def freekidsReads : CTypeCode → Bool
  | .node info subtypes _ =>
      match info.kind with
      | .any | .typeCode | .objref | .principal | .union | .wstring | .string | .sequence => true
      | .except | .struct => anyReads subtypes
      | .array => decide (0 < info.length) && headReads subtypes
      | .alias => headReads subtypes
      | _ => false

def anyReads : List CTypeCode → Bool
  | [] => false
  | tc :: tcs => freekidsReads tc || anyReads tcs

def headReads : List CTypeCode → Bool
  | [] => false
  | tc :: _ => freekidsReads tc

end

mutual

/-- `typecode_equiv_internal`; `none` is a failed `g_assert`. -/
def typecodeEquivInternal (strictEqual : Bool) : CTypeCode → CTypeCode → Option Bool
  | .node info subtypes discriminator, tc =>
      if strictEqual = false ∧ info.kind = .alias then
        equivHead strictEqual subtypes (tc.skipAlias)
      else
        match if strictEqual then tc else tc.skipAlias with
        | .node info' subtypes' discriminator' =>
            if info.kind ≠ info'.kind then some false
            else
              match info.kind with
              | .wstring | .string => some (info.length == info'.length)
              | .objref => some (info.repoId == info'.repoId)
              | .except | .struct =>
                  if info.repoId ≠ info'.repoId ∨ subtypes.length ≠ subtypes'.length then
                    some false
                  else equivMembers strictEqual subtypes subtypes'
              | .union =>
                  if info.repoId ≠ info'.repoId ∨ subtypes.length ≠ subtypes'.length then
                    some false
                  else
                    match equivDiscriminator strictEqual discriminator discriminator' with
                    | some true =>
                        if info.defaultIndex ≠ info'.defaultIndex then some false
                        else
                          equivArms strictEqual subtypes info.sublabels subtypes' info'.sublabels
                    | r => r
              | .enum =>
                  some (info.subnames.length == info'.subnames.length &&
                    info.repoId == info'.repoId && info.subnames == info'.subnames)
              | .sequence | .array =>
                  if info.length ≠ info'.length then some false
                  else if subtypes.length ≠ 1 ∨ subtypes'.length ≠ 1 then none
                  else equivMembers strictEqual subtypes subtypes'
              | .alias =>
                  if info.repoId ≠ info'.repoId then some false
                  else if subtypes.length ≠ 1 ∨ subtypes'.length ≠ 1 then none
                  else equivMembers strictEqual subtypes subtypes'
              | .fixed => some (info.digits == info'.digits && info.scale == info'.scale)
              | _ => some true

def equivHead (strictEqual : Bool) : List CTypeCode → CTypeCode → Option Bool
  | [], _ => none
  | sub :: _, tc => typecodeEquivInternal strictEqual sub tc

def equivDiscriminator (strictEqual : Bool) : Option CTypeCode → Option CTypeCode → Option Bool
  | some d, some d' => typecodeEquivInternal strictEqual d d'
  | _, _ => some false

def equivMembers (strictEqual : Bool) : List CTypeCode → List CTypeCode → Option Bool
  | sub :: subtypes, sub' :: subtypes' =>
      match typecodeEquivInternal strictEqual sub sub' with
      | some true => equivMembers strictEqual subtypes subtypes'
      | r => r
  | _, _ => some true

def equivArms (strictEqual : Bool) :
    List CTypeCode → List Int → List CTypeCode → List Int → Option Bool
  | sub :: subtypes, label :: labels, sub' :: subtypes', label' :: labels' =>
      match typecodeEquivInternal strictEqual sub sub' with
      | some true =>
          if label ≠ label' then some false
          else equivArms strictEqual subtypes labels subtypes' labels'
      | r => r
  | _, _, _, _ => some true

end

/-- `CORBA_TypeCode_equal`. -/
def equal (obj tc : CTypeCode) : Option Bool := typecodeEquivInternal true obj tc

mutual

/-- The parts a TypeCode's kind calls for are there. -/
def wellFormed : CTypeCode → Bool
  | .node info subtypes discriminator =>
      (match info.kind with
        | .union =>
            discriminator.isSome && info.sublabels.length == subtypes.length &&
              decide (info.defaultIndex < subtypes.length)
        | .sequence | .array | .alias => subtypes.length == 1
        | _ => true) && allWellFormed subtypes && discriminatorWellFormed discriminator

def allWellFormed : List CTypeCode → Bool
  | [] => true
  | tc :: tcs => wellFormed tc && allWellFormed tcs

def discriminatorWellFormed : Option CTypeCode → Bool
  | none => true
  | some tc => wellFormed tc

end

theorem allWellFormed_iff (tcs : List CTypeCode) :
    allWellFormed tcs = true ↔ ∀ tc ∈ tcs, tc.wellFormed = true := by
  induction tcs with
  | nil => simp [allWellFormed]
  | cons tc tcs ih => simp [allWellFormed, ih]

theorem wellFormed_subtype {tc sub : CTypeCode} (h : tc.wellFormed = true)
    (hs : sub ∈ tc.subtypes) : sub.wellFormed = true := by
  cases tc with
  | node info subtypes discriminator =>
    rw [wellFormed, Bool.and_eq_true, Bool.and_eq_true] at h
    exact (allWellFormed_iff _).1 h.1.2 sub hs

theorem wellFormed_discriminator {tc d : CTypeCode} (h : tc.wellFormed = true)
    (hd : tc.discriminator = some d) : d.wellFormed = true := by
  cases tc with
  | node info subtypes discriminator =>
    rw [wellFormed, Bool.and_eq_true] at h
    have hd' : discriminator = some d := hd
    simpa [hd', discriminatorWellFormed] using h.2

theorem wellFormed_skipAlias : (tc : CTypeCode) → tc.wellFormed = true →
    tc.skipAlias.wellFormed = true
  | .node info [] discriminator => by
    intro h
    unfold skipAlias
    split
    · contradiction
    · exact h
  | .node info (sub :: subtypes) discriminator => by
    intro h
    unfold skipAlias
    split
    · rename_i hk hs
      cases hs
      exact wellFormed_skipAlias sub (wellFormed_subtype h List.mem_cons_self)
    · exact h

mutual

theorem typecodeEquivInternal_self : (tc : CTypeCode) → tc.wellFormed = true →
    typecodeEquivInternal true tc tc = some true
  | .node info subtypes discriminator, h => by
    rw [wellFormed, Bool.and_eq_true, Bool.and_eq_true] at h
    obtain ⟨⟨hk, hs⟩, hd⟩ := h
    have hm := equivMembers_self subtypes hs
    unfold typecodeEquivInternal
    rw [if_neg (by simp)]
    simp only [if_true, ne_eq, not_true_eq_false, if_false, or_self, hm]
    cases h : info.kind <;> simp only [h] at hk ⊢ <;> try simp
    case union =>
      have ha := equivArms_self subtypes hs info.sublabels
      cases discriminator with
      | none => simp at hk
      | some d =>
        have he := typecodeEquivInternal_self d hd
        simp [equivDiscriminator, he, ha]
    all_goals simpa using hk

theorem equivMembers_self : (tcs : List CTypeCode) → allWellFormed tcs = true →
    equivMembers true tcs tcs = some true
  | [], _ => by simp [equivMembers]
  | tc :: tcs, h => by
    rw [allWellFormed, Bool.and_eq_true] at h
    rw [equivMembers, typecodeEquivInternal_self tc h.1]
    exact equivMembers_self tcs h.2

theorem equivArms_self : (tcs : List CTypeCode) → allWellFormed tcs = true →
    (labels : List Int) → equivArms true tcs labels tcs labels = some true
  | [], _, _ => by simp [equivArms]
  | _ :: _, _, [] => by simp [equivArms]
  | tc :: tcs, h, label :: labels => by
    rw [allWellFormed, Bool.and_eq_true] at h
    rw [equivArms, typecodeEquivInternal_self tc h.1]
    simpa using equivArms_self tcs h.2 labels

end

theorem equal_self {tc : CTypeCode} (h : tc.wellFormed = true) : tc.equal tc = some true :=
  typecodeEquivInternal_self tc h

/-- A TypeCode without parts, and one that names another. -/
def basic (kind : TCKind) : CTypeCode := .node ⟨kind, 0, [], [], [], [], -1, 0, 0⟩ [] none

def aliasOf (tc : CTypeCode) : CTypeCode := .node ⟨.alias, 0, [], [], [], [], -1, 0, 0⟩ [tc] none

end CTypeCode
end ORBit2
