import ORBit2.IdlTypes
import ORBit2.Layout

/-! The alignment of an IDL type, computed by the IDL compiler, by the run-time IDL module, by
the ORB from the TypeCode, and by the C compiler from the declaration. -/

set_option autoImplicit false

namespace ORBit2

/-- The `ORBIT_ALIGNOF_CORBA` constants that an IDL type can name. -/
inductive AlignName where
  | short | long | longLong | float | double | longDouble | char | pointer | struct
  deriving DecidableEq, Repr

def AlignName.value : AlignName → Nat
  | .short => 2
  | .long | .float => 4
  | .longLong | .double | .longDouble | .pointer => 8
  | .char | .struct => 1

/-- `orbit_add_align`. -/
def addAlign (max : List AlignName) (name : AlignName) : List AlignName :=
  if name ∈ max then max else name :: max

mutual

/-- `orbit_find_c_align`. -/
def findCAlign (max : List AlignName) : IdlType → List AlignName
  | .integer _ .short => addAlign max .short
  | .integer _ .long => addAlign max .long
  | .integer _ .longlong => addAlign max .longLong
  | .float .float => addAlign max .float
  | .float .double => addAlign max .double
  | .float .longdouble => addAlign max .longDouble
  | .enum _ _ => addAlign max .long
  | .char | .boolean | .octet => addAlign max .char
  | .wideChar => addAlign max .short
  | .union _ _ body => findArmAlign (addAlign max .struct) body
  | .except _ members | .struct _ members => findMemberAlign max members
  | .string _ | .wideString _ | .object | .typeCode | .interface _ _ => addAlign max .pointer
  | .sequence _ _ | .recursiveSequence _ _ =>
      addAlign (addAlign (addAlign max .struct) .long) .pointer
  | .any => addAlign (addAlign max .struct) .pointer
  -- an array is looked at through its IDLN_TYPE_DCL as well
  | .typedef _ type => findCAlign max type

def findMemberAlign (max : List AlignName) : List Member → List AlignName
  | [] => max
  | .mk type _ _ :: members => findMemberAlign (findCAlign max type) members

def findArmAlign (max : List AlignName) : List CaseStmt → List AlignName
  | [] => max
  | .mk _ _ type _ :: body => findArmAlign (findCAlign max type) body

end

/-- `orbit_output_tcstruct_c_align`: the value of the expression it prints. -/
def outputCAlign (type : IdlType) : Nat :=
  match findCAlign [] type with
  | [] => 1
  | [name] => name.value
  | names => names.foldr (fun name n => max name.value n) 1

mutual

/-- `ORBit_imodule_find_c_align`. -/
def imoduleFindCAlign : IdlType → Nat
  | .integer _ .short => AlignName.value .short
  | .integer _ .long => AlignName.value .long
  | .integer _ .longlong => AlignName.value .longLong
  | .float .float => AlignName.value .float
  | .float .double => AlignName.value .double
  | .float .longdouble => AlignName.value .longDouble
  | .enum _ _ => AlignName.value .long
  | .char | .boolean | .octet => AlignName.value .char
  | .wideChar => AlignName.value .short
  | .union _ _ body => imoduleArmAlign (AlignName.value .struct) body
  | .except _ members | .struct _ members => imoduleMemberAlign 1 members
  | .string _ | .wideString _ | .object | .typeCode | .interface _ _ => AlignName.value .pointer
  | .typedef _ type => imoduleFindCAlign type
  | .sequence _ _ | .recursiveSequence _ _ =>
      max (max (AlignName.value .struct) (AlignName.value .long)) (AlignName.value .pointer)
  | .any => max (AlignName.value .struct) (AlignName.value .pointer)

def imoduleMemberAlign (cAlign : Nat) : List Member → Nat
  | [] => cAlign
  | .mk type _ _ :: members => imoduleMemberAlign (max cAlign (imoduleFindCAlign type)) members

def imoduleArmAlign (cAlign : Nat) : List CaseStmt → Nat
  | [] => cAlign
  | .mk _ _ type _ :: body => imoduleArmAlign (max cAlign (imoduleFindCAlign type)) body

end

/-! ### What the four of them look at -/

mutual

/-- The kinds a value is made of, apart from what selects among the arms of its unions. -/
def IdlType.parts : IdlType → List TCKind
  | .integer signed type => [type.kind signed]
  | .float type => [type.kind]
  | .char => [.char]
  | .wideChar => [.wchar]
  | .boolean => [.boolean]
  | .octet => [.octet]
  | .any => [.any]
  | .object | .interface _ _ => [.objref]
  | .typeCode => [.typeCode]
  | .string _ => [.string]
  | .wideString _ => [.wstring]
  | .enum _ _ => [.enum]
  | .sequence _ _ | .recursiveSequence _ _ => [.sequence]
  | .struct _ members | .except _ members => memberParts members
  | .union _ _ body => armParts body
  | .typedef _ type => type.parts

def memberParts : List Member → List TCKind
  | [] => []
  | .mk type _ _ :: members => type.parts ++ memberParts members

def armParts : List CaseStmt → List TCKind
  | [] => []
  | .mk _ _ type _ :: body => type.parts ++ armParts body

end

mutual

/-- The switches of the unions a value is made of. -/
def IdlType.switches : IdlType → List TCKind
  | .struct _ members | .except _ members => memberSwitches members
  | .union _ switch body => switch.parts ++ switch.switches ++ armSwitches body
  | .typedef _ type => type.switches
  | _ => []

def memberSwitches : List Member → List TCKind
  | [] => []
  | .mk type _ _ :: members => type.switches ++ memberSwitches members

def armSwitches : List CaseStmt → List TCKind
  | [] => []
  | .mk _ _ type _ :: body => type.switches ++ armSwitches body

end

mutual

/-- There is a struct or an exception without members, which gets an `int` in C. -/
def IdlType.hasEmpty : IdlType → Bool
  | .struct _ members | .except _ members => members.isEmpty || memberEmpty members
  | .union _ switch body => switch.hasEmpty || armEmpty body
  | .typedef _ type => type.hasEmpty
  | _ => false

def memberEmpty : List Member → Bool
  | [] => false
  | .mk type _ _ :: members => type.hasEmpty || memberEmpty members

def armEmpty : List CaseStmt → Bool
  | [] => false
  | .mk _ _ type _ :: body => type.hasEmpty || armEmpty body

end

/-- The alignment of the most aligned of some kinds. -/
def widest (kinds : List TCKind) : Nat := kinds.foldr (fun kind n => max kind.alignof n) 1

theorem widest_cons (kind : TCKind) (kinds : List TCKind) :
    widest (kind :: kinds) = max kind.alignof (widest kinds) := rfl

theorem one_le_widest (kinds : List TCKind) : 1 ≤ widest kinds := by
  induction kinds with
  | nil => exact Nat.le_refl 1
  | cons kind kinds ih =>
    rw [widest_cons]
    exact ih.trans (le_max_right _ _)

theorem widest_append (kinds kinds' : List TCKind) :
    widest (kinds ++ kinds') = max (widest kinds) (widest kinds') := by
  induction kinds with
  | nil => exact (max_eq_right (one_le_widest kinds')).symm
  | cons kind kinds ih => rw [List.cons_append, widest_cons, widest_cons, ih, max_assoc]

theorem TCKind.one_le_alignof (kind : TCKind) : 1 ≤ kind.alignof := by cases kind <;> decide

theorem widest_single (kind : TCKind) : widest [kind] = kind.alignof :=
  max_eq_left kind.one_le_alignof

/-- A bound above one is kept by the most aligned kind if and only if some kind keeps it. -/
theorem le_widest_iff {n : Nat} (hn : 1 < n) (kinds : List TCKind) :
    n ≤ widest kinds ↔ ∃ kind ∈ kinds, n ≤ kind.alignof := by
  induction kinds with
  | nil => simpa [widest] using hn
  | cons kind kinds ih => simp [widest_cons, ih]

theorem widest_le_iff (kinds : List TCKind) {n : Nat} (hn : 1 ≤ n) :
    widest kinds ≤ n ↔ ∀ kind ∈ kinds, kind.alignof ≤ n := by
  induction kinds with
  | nil => simpa [widest] using hn
  | cons kind kinds ih => simp [widest_cons, ih]

/-! ### The two IDL translators -/

/-- The value of the nested `MAX` expression. -/
def maxOfNames (names : List AlignName) : Nat := names.foldr (fun name n => max name.value n) 1

theorem maxOfNames_cons (name : AlignName) (names : List AlignName) :
    maxOfNames (name :: names) = max name.value (maxOfNames names) := rfl

theorem value_le_maxOfNames {name : AlignName} {names : List AlignName} (h : name ∈ names) :
    name.value ≤ maxOfNames names := by
  induction names with
  | nil => cases h
  | cons name' names ih =>
    rw [maxOfNames_cons]
    rcases List.mem_cons.1 h with rfl | h
    · exact le_max_left _ _
    · exact (ih h).trans (le_max_right _ _)

theorem one_le_maxOfNames (names : List AlignName) : 1 ≤ maxOfNames names := by
  induction names with
  | nil => exact Nat.le_refl 1
  | cons name names ih => exact ih.trans (le_max_right _ _)

theorem maxOfNames_addAlign (names : List AlignName) (name : AlignName) :
    maxOfNames (addAlign names name) = max (maxOfNames names) name.value := by
  unfold addAlign
  split
  · rename_i h
    exact (max_eq_left (value_le_maxOfNames h)).symm
  · rw [maxOfNames_cons, max_comm]

theorem outputCAlign_eq (type : IdlType) : outputCAlign type = maxOfNames (findCAlign [] type) := by
  unfold outputCAlign
  split
  · rename_i h
    rw [h]
    rfl
  · rename_i name h
    have h1 : 1 ≤ name.value := by cases name <;> decide
    rw [h, maxOfNames_cons]
    exact (max_eq_left h1).symm
  · rfl

mutual

theorem maxOfNames_findCAlign (names : List AlignName) : (type : IdlType) →
    maxOfNames (findCAlign names type) = max (maxOfNames names) (widest type.parts)
  | .integer signed .short => by
    cases signed <;> simp [findCAlign, maxOfNames_addAlign, IdlType.parts, IntegerType.kind,
      widest_single, AlignName.value, TCKind.alignof]
  | .integer signed .long => by
    cases signed <;> simp [findCAlign, maxOfNames_addAlign, IdlType.parts, IntegerType.kind,
      widest_single, AlignName.value, TCKind.alignof]
  | .integer signed .longlong => by
    cases signed <;> simp [findCAlign, maxOfNames_addAlign, IdlType.parts, IntegerType.kind,
      widest_single, AlignName.value, TCKind.alignof]
  | .float type => by
    cases type <;> simp [findCAlign, maxOfNames_addAlign, IdlType.parts, FloatType.kind,
      widest_single, AlignName.value, TCKind.alignof]
  | .char | .wideChar | .boolean | .octet | .object | .typeCode | .string _ | .wideString _
  | .enum _ _ | .interface _ _ => by
    simp [findCAlign, maxOfNames_addAlign, IdlType.parts, widest_single, AlignName.value,
      TCKind.alignof]
  | .any | .sequence _ _ | .recursiveSequence _ _ => by
    simp [findCAlign, maxOfNames_addAlign, IdlType.parts, widest_single, AlignName.value,
      TCKind.alignof]
  | .struct _ members => by
    rw [findCAlign, IdlType.parts]
    exact maxOfNames_findMemberAlign names members
  | .except _ members => by
    rw [findCAlign, IdlType.parts]
    exact maxOfNames_findMemberAlign names members
  | .union _ _ body => by
    have h1 := one_le_maxOfNames names
    rw [findCAlign, IdlType.parts, maxOfNames_findArmAlign, maxOfNames_addAlign, AlignName.value,
      max_eq_left h1]
  | .typedef _ type => by
    rw [findCAlign, IdlType.parts]
    exact maxOfNames_findCAlign names type

theorem maxOfNames_findMemberAlign (names : List AlignName) : (members : List Member) →
    maxOfNames (findMemberAlign names members) = max (maxOfNames names) (widest (memberParts members))
  | [] => by
    rw [findMemberAlign, memberParts]
    exact (max_eq_left (one_le_maxOfNames names)).symm
  | .mk type _ _ :: members => by
    rw [findMemberAlign, memberParts, maxOfNames_findMemberAlign, maxOfNames_findCAlign,
      widest_append, max_assoc]

theorem maxOfNames_findArmAlign (names : List AlignName) : (body : List CaseStmt) →
    maxOfNames (findArmAlign names body) = max (maxOfNames names) (widest (armParts body))
  | [] => by
    rw [findArmAlign, armParts]
    exact (max_eq_left (one_le_maxOfNames names)).symm
  | .mk _ _ type _ :: body => by
    rw [findArmAlign, armParts, maxOfNames_findArmAlign, maxOfNames_findCAlign, widest_append,
      max_assoc]

end

/-- The IDL compiler prints the alignment of the most aligned part. -/
theorem outputCAlign_parts (type : IdlType) : outputCAlign type = widest type.parts := by
  rw [outputCAlign_eq, maxOfNames_findCAlign]
  exact max_eq_right (one_le_widest _)

mutual

/-- And so does the IDL module. -/
theorem imoduleFindCAlign_parts : (type : IdlType) → imoduleFindCAlign type = widest type.parts
  | .integer signed type => by
    cases signed <;> cases type <;> rfl
  | .float type => by cases type <;> rfl
  | .char | .wideChar | .boolean | .octet | .object | .typeCode | .string _ | .wideString _
  | .enum _ _ | .interface _ _ | .any | .sequence _ _ | .recursiveSequence _ _ => by
    simp [imoduleFindCAlign, IdlType.parts, widest_single, AlignName.value, TCKind.alignof]
  | .struct _ members => by
    rw [imoduleFindCAlign, IdlType.parts, imoduleMemberAlign_parts members 1 (Nat.le_refl 1)]
    exact max_eq_right (one_le_widest _)
  | .except _ members => by
    rw [imoduleFindCAlign, IdlType.parts, imoduleMemberAlign_parts members 1 (Nat.le_refl 1)]
    exact max_eq_right (one_le_widest _)
  | .union _ _ body => by
    rw [imoduleFindCAlign, IdlType.parts, imoduleArmAlign_parts body (AlignName.value .struct) (Nat.le_refl 1)]
    exact max_eq_right (one_le_widest _)
  | .typedef _ type => by
    rw [imoduleFindCAlign, IdlType.parts]
    exact imoduleFindCAlign_parts type

theorem imoduleMemberAlign_parts : (members : List Member) → ∀ cAlign,
    1 ≤ cAlign → imoduleMemberAlign cAlign members = max cAlign (widest (memberParts members))
  | [], cAlign, h => by
    rw [imoduleMemberAlign, memberParts]
    exact (max_eq_left h).symm
  | .mk type _ _ :: members, cAlign, h => by
    have ht := imoduleFindCAlign_parts type
    rw [imoduleMemberAlign, memberParts, ht,
      imoduleMemberAlign_parts members _ (h.trans (le_max_left _ _)), widest_append, max_assoc]

theorem imoduleArmAlign_parts : (body : List CaseStmt) → ∀ cAlign,
    1 ≤ cAlign → imoduleArmAlign cAlign body = max cAlign (widest (armParts body))
  | [], cAlign, h => by
    rw [imoduleArmAlign, armParts]
    exact (max_eq_left h).symm
  | .mk _ _ type _ :: body, cAlign, h => by
    have ht := imoduleFindCAlign_parts type
    rw [imoduleArmAlign, armParts, ht,
      imoduleArmAlign_parts body _ (h.trans (le_max_left _ _)), widest_append, max_assoc]

end

/-! ### The TypeCode and the declaration -/

open CTypeCode in
theorem widestAlignment_append (tcs tcs' : List CTypeCode) :
    widestAlignment (tcs ++ tcs') = max (widestAlignment tcs) (widestAlignment tcs') := by
  induction tcs with
  | nil => exact (max_eq_right (widestAlignment_pos tcs')).symm
  | cons tc tcs ih => rw [List.cons_append, widestAlignment, widestAlignment, ih, max_assoc]

open CTypeCode in
/-- One copy of a TypeCode aligns like several. -/
theorem widestAlignment_copies {α : Type} (tc : CTypeCode) (x : α) (xs : List α) :
    widestAlignment ((x :: xs).map fun _ => tc) = tc.findCAlignment := by
  induction xs generalizing x with
  | nil => exact max_eq_left tc.findCAlignment_pos
  | cons y ys ih =>
    rw [List.map_cons, widestAlignment, ih, max_self]

open CTypeCode in
theorem findCAlignment_nestArrays (element : CTypeCode) (sizes : List Nat) :
    (nestArrays element sizes).findCAlignment = element.findCAlignment := by
  induction sizes with
  | nil => rfl
  | cons size sizes ih => rw [nestArrays, findCAlignment, headAlignment, ih]

section
variable (emitted : List UInt8 → Nat) (enclosing : Ident → CTypeCode)
open CTypeCode

/-- `Object` is aligned like any other interface. -/
theorem findCAlignment_interface {type : IdlType} (h : type.interfaceDeclspec.isSome = true) :
    (basicTypeCode .objref "Object").findCAlignment = max (widest type.parts) (widest type.switches) :=
  match type with
  | .interface _ _ => rfl
  | .typedef (.ident _) type => by
    rw [IdlType.interfaceDeclspec] at h
    rw [IdlType.parts, IdlType.switches]
    exact findCAlignment_interface h

mutual

/-- The ORB aligns a TypeCode like its most aligned part or switch. -/
theorem findCAlignment_static : (type : IdlType) →
    (staticTypeCode emitted enclosing type).findCAlignment =
      max (widest type.parts) (widest type.switches)
  | .integer signed type => by
    cases signed <;> cases type <;> rfl
  | .float type => by cases type <;> rfl
  | .char | .wideChar | .boolean | .octet | .object | .typeCode | .string _ | .wideString _
  | .any => rfl
  | .enum _ _ | .interface _ _ | .sequence _ _ | .recursiveSequence _ _ => by
    rw [staticTypeCode, findCAlignment]
    rfl
  | .struct _ members => by
    rw [staticTypeCode, findCAlignment, IdlType.parts, IdlType.switches]
    exact widestAlignment_static members
  | .except _ members => by
    rw [staticTypeCode, findCAlignment, IdlType.parts, IdlType.switches]
    exact widestAlignment_static members
  | .union _ switch body => by
    have hs := findCAlignment_static switch
    have hb := widestAlignment_staticArms body
    rw [staticTypeCode, findCAlignment, IdlType.parts, IdlType.switches, discriminatorAlignment, hs,
      hb, widest_append, widest_append]
    ac_rfl
  | .typedef (.ident _) type => by
    rw [staticTypeCode, findCAlignment, headAlignment, IdlType.parts, IdlType.switches]
    exact findCAlignment_static type
  | .typedef (.array _ sizes) type => by
    rw [staticTypeCode, findCAlignment, headAlignment, IdlType.parts, IdlType.switches,
      findCAlignment_nestArrays]
    exact findCAlignment_static type

theorem widestAlignment_static : (members : List Member) →
    widestAlignment (staticMembers emitted enclosing members) =
      max (widest (memberParts members)) (widest (memberSwitches members))
  | [] => by
    rw [staticMembers]
    rfl
  | .mk type dcl dcls :: members => by
    have ht : (if type.interfaceDeclspec.any Declspec.pidl then basicTypeCode .objref "Object"
        else staticTypeCode emitted enclosing type).findCAlignment =
          max (widest type.parts) (widest type.switches) := by
      split
      · next h => exact findCAlignment_interface (Option.isSome_of_any h)
      · exact findCAlignment_static type
    have hm := widestAlignment_static members
    rw [staticMembers, memberParts, memberSwitches, widestAlignment_append, widestAlignment_copies,
      ht, hm, widest_append, widest_append]
    ac_rfl

theorem widestAlignment_staticArms : (body : List CaseStmt) →
    widestAlignment (staticArms emitted enclosing body) =
      max (widest (armParts body)) (widest (armSwitches body))
  | [] => by
    rw [staticArms]
    rfl
  | .mk label labels type _ :: body => by
    have ht := findCAlignment_static type
    have hb := widestAlignment_staticArms body
    rw [staticArms, armParts, armSwitches, widestAlignment_append, widestAlignment_copies, ht, hb,
      widest_append, widest_append]
    ac_rfl

end
end

/-- What a struct without members adds. -/
def emptyAlign (hasEmpty : Bool) : Nat := if hasEmpty then 4 else 1

theorem emptyAlign_or (a b : Bool) : emptyAlign (a || b) = max (emptyAlign a) (emptyAlign b) := by
  cases a <;> cases b <;> rfl

namespace CType

theorem one_le_widest (fields : List CType) : 1 ≤ widest fields := by
  induction fields with
  | nil => exact Nat.le_refl 1
  | cons field fields ih =>
    rw [widest]
    exact ih.trans (le_max_right _ _)

theorem widest_append (fields fields' : List CType) :
    widest (fields ++ fields') = max (widest fields) (widest fields') := by
  induction fields with
  | nil => exact (max_eq_right (one_le_widest fields')).symm
  | cons field fields ih => rw [List.cons_append, widest, widest, ih, max_assoc]

theorem alignof_outputVar (type : CType) (dcl : Declarator) :
    (outputVar type dcl).alignof = type.alignof := by
  cases dcl with
  | ident name => rfl
  | array name sizes =>
    rw [outputVar]
    induction sizes with
    | nil => rfl
    | cons size sizes ih => rw [List.foldr_cons, alignof, ih]

theorem widest_declarators (type : CType) (dcl : Declarator) (dcls : List Declarator)
    (h : 1 ≤ type.alignof) : widest ((dcl :: dcls).map (outputVar type)) = type.alignof := by
  induction dcls generalizing dcl with
  | nil =>
    rw [List.map_cons, widest, alignof_outputVar]
    exact max_eq_left h
  | cons dcl' dcls ih => rw [List.map_cons, widest, alignof_outputVar, ih, max_self]

end CType

mutual

/-- The C compiler aligns a declaration like its most aligned part or switch, or like the
`int` of a struct without members. -/
theorem alignof_cType : (type : IdlType) → type.cType.alignof =
    max (max (widest type.parts) (widest type.switches)) (emptyAlign type.hasEmpty)
  | .integer signed type => by
    cases signed <;> cases type <;> rfl
  | .float type => by cases type <;> rfl
  | .char | .wideChar | .boolean | .octet | .object | .typeCode | .string _ | .wideString _
  | .any | .enum _ _ | .interface _ _ | .sequence _ _ | .recursiveSequence _ _ => by
    rw [IdlType.cType]
    rfl
  | .struct _ [] => by
    rw [IdlType.cType]
    rfl
  | .except _ [] => by
    rw [IdlType.cType]
    rfl
  | .struct _ (member :: members) => by
    rw [IdlType.cType, CType.alignof, IdlType.parts, IdlType.switches, IdlType.hasEmpty]
    exact alignof_memberFields (member :: members)
  | .except _ (member :: members) => by
    rw [IdlType.cType, CType.alignof, IdlType.parts, IdlType.switches, IdlType.hasEmpty]
    exact alignof_memberFields (member :: members)
  | .union _ switch body => by
    have hs := alignof_cType switch
    have hb := alignof_armFields body
    have h1 := CType.one_le_widest (armFields body)
    rw [IdlType.cType, CType.alignof, CType.widest, CType.widest, CType.widest, CType.alignof,
      max_eq_left h1, hs, hb, IdlType.parts, IdlType.switches, IdlType.hasEmpty, widest_append,
      widest_append, emptyAlign_or]
    ac_rfl
  | .typedef dcl type => by
    rw [IdlType.cType, CType.alignof_outputVar, IdlType.parts, IdlType.switches, IdlType.hasEmpty]
    exact alignof_cType type

theorem alignof_memberFields : (members : List Member) → CType.widest (memberFields members) =
    max (max (widest (memberParts members)) (widest (memberSwitches members)))
      (emptyAlign (memberEmpty members))
  | [] => by
    rw [memberFields]
    rfl
  | .mk type dcl dcls :: members => by
    have ht := alignof_cType type
    have hm := alignof_memberFields members
    have h1 : 1 ≤ type.cType.alignof := by
      rw [ht]
      exact (one_le_widest _).trans ((le_max_left _ _).trans (le_max_left _ _))
    rw [memberFields, CType.widest_append, CType.widest_declarators _ dcl dcls h1, ht, hm,
      memberParts, memberSwitches, memberEmpty, widest_append, widest_append, emptyAlign_or]
    ac_rfl

theorem alignof_armFields : (body : List CaseStmt) → CType.widest (armFields body) =
    max (max (widest (armParts body)) (widest (armSwitches body))) (emptyAlign (armEmpty body))
  | [] => by
    rw [armFields]
    rfl
  | .mk _ _ type dcl :: body => by
    have ht := alignof_cType type
    have hb := alignof_armFields body
    rw [armFields, CType.widest, CType.alignof_outputVar, ht, hb, armParts, armSwitches, armEmpty,
      widest_append, widest_append, emptyAlign_or]
    ac_rfl

end

/-- The four alignments are one. The TypeCode is the static one. -/
def AlignmentsAgree (emitted : List UInt8 → Nat) (enclosing : Ident → CTypeCode)
    (type : IdlType) : Prop :=
  outputCAlign type = imoduleFindCAlign type ∧
  imoduleFindCAlign type = (staticTypeCode emitted enclosing type).findCAlignment ∧
  (staticTypeCode emitted enclosing type).findCAlignment = type.cType.alignof

/-- The four alignments of a type agree if and only if every switch of its unions is no more
aligned than some part of it that is not a switch, and a struct without members comes with a
part that is as aligned as an `int`. -/
theorem alignmentsAgree_iff (emitted : List UInt8 → Nat) (enclosing : Ident → CTypeCode)
    (type : IdlType) :
    AlignmentsAgree emitted enclosing type ↔
      (∀ kind ∈ type.switches, 1 < kind.alignof →
        ∃ part ∈ type.parts, kind.alignof ≤ part.alignof) ∧
      (type.hasEmpty = true → ∃ part ∈ type.parts, 4 ≤ part.alignof) := by
  have hp := one_le_widest type.parts
  have hswitches : (∀ kind ∈ type.switches, 1 < kind.alignof →
      ∃ part ∈ type.parts, kind.alignof ≤ part.alignof) ↔
      widest type.switches ≤ widest type.parts := by
    rw [widest_le_iff _ hp]
    refine forall₂_congr fun kind _ => ?_
    by_cases h1 : 1 < kind.alignof
    · rw [le_widest_iff h1]
      exact ⟨fun h => h h1, fun h _ => h⟩
    · have hk : kind.alignof ≤ widest type.parts := by omega
      exact ⟨fun _ => hk, fun _ h => absurd h h1⟩
  have hempty : (type.hasEmpty = true → ∃ part ∈ type.parts, 4 ≤ part.alignof) ↔
      emptyAlign type.hasEmpty ≤ widest type.parts := by
    cases type.hasEmpty with
    | false => simpa [emptyAlign] using hp
    | true =>
      have h4 := le_widest_iff (show 1 < 4 by omega) type.parts
      simpa [emptyAlign] using h4.symm
  rw [AlignmentsAgree, outputCAlign_parts, imoduleFindCAlign_parts, findCAlignment_static,
    alignof_cType, hswitches, hempty]
  omega

/-- `union U switch (long) { case 1: char c; };`. -/
def unionOfChar : IdlType :=
  .union ⟨ascii "U", ascii "IDL:U:1.0", ascii "U"⟩ (.integer true .long)
    [.mk (some (.integer 1)) [] .char (.ident ⟨ascii "c", ascii "IDL:U/c:1.0", ascii "U_c"⟩)]

/-- The two translators give it the alignment of a `char`, the ORB and the C compiler that of
its switch. -/
theorem not_alignmentsAgree_unionOfChar :
    ¬ AlignmentsAgree (fun _ => 0) (fun _ => CTypeCode.basic .null) unionOfChar ∧
      outputCAlign unionOfChar = 1 ∧ imoduleFindCAlign unionOfChar = 1 ∧
      unionOfChar.cType.alignof = 4 := by
  refine ⟨fun h => ?_, by decide, by decide, by decide⟩
  have hi : imoduleFindCAlign unionOfChar = 1 := by decide
  have hc : unionOfChar.cType.alignof = 4 := by decide
  have h' := h.2.1.trans h.2.2
  omega

end ORBit2
