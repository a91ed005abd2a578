import ORBit2.TypeCodeCore

/-! `ORBit_value_equivalent` and `ORBit_any_equivalent`, reading two values where they lie in
memory. Values are laid out as `ORBit_gather_alloc_info` reserves them. -/

set_option autoImplicit false

namespace ORBit2
open Words

/-- The memory of a process on a host with 64-bit pointers, and the TypeCodes that live in
it. -/
structure Memory where
  host : Endian
  byte : Nat → UInt8
  typeCode : Nat → CTypeCode

namespace Memory

@[grind =] def bytes (mem : Memory) : Nat → Nat → List UInt8
  | _, 0 => []
  | a, size+1 => mem.byte a :: bytes mem (a+1) size

def word (mem : Memory) (a size : Nat) : Nat := mem.host.join (mem.bytes a size)

def pointer (mem : Memory) (a : Nat) : Nat := mem.word a 8

/-- `!strcmp (p, q)`, in as many steps as there are addresses. -/
@[grind =] def strcmpEqual (mem : Memory) : Nat → Nat → Nat → Bool
  | 0, _, _ => false
  | steps+1, p, q =>
      if mem.byte p ≠ mem.byte q then false
      else if mem.byte p = 0 then true
      else strcmpEqual mem steps (p+1) (q+1)

/-- The number a union discriminator of this kind stands for. -/
def label (mem : Memory) (kind : TCKind) (a : Nat) : Int :=
  match kind with
  | .ulong | .long | .enum => signed 4 (mem.word a 4)
  | .ushort | .short => signed 2 (mem.word a 2)
  | .wchar => mem.word a 2
  | .longlong | .ulonglong => signed 8 (mem.word a 8)
  | _ => mem.word a 1

end Memory

/-- TRUE with both pointers moved, FALSE, or no answer: an assertion, `g_error`, an overflow
of the loop index, or memory read as what it is not. -/
inductive Compared where
  | same (a b : Nat)
  | differ
  | lost
  deriving DecidableEq

def Compared.andThen : Compared → (Nat → Nat → Compared) → Compared
  | .same a b, k => k a b
  | v, _ => v

/-- `for (i = 0; i < count; i++)` with an `int i`, over elements at two moving pointers. -/
@[grind =] def equivalentLoop (f : Nat → Nat → Compared) : (left i a b : Nat) → Compared
  | 0, _, a, b => .same a b
  | left+1, i, a, b =>
      (f a b).andThen fun a b =>
        if i + 1 = 2^31 then .lost else equivalentLoop f left (i+1) a b

namespace Memory

/-- `ALIGN_COMPARE`. -/
def alignCompare (mem : Memory) (size a b : Nat) : Compared :=
  if mem.bytes a size = mem.bytes b size then .same (a + size) (b + size) else .differ

/-- `ALIGN_COMPARE` where the C type is a floating-point one. -/
def floatCompare (mem : Memory) (floatEqual : List UInt8 → List UInt8 → Bool) (size a b : Nat) :
    Compared :=
  if floatEqual (mem.bytes a size) (mem.bytes b size) then .same (a + size) (b + size)
  else .differ

/-- `ORBit_get_union_switch`; `none` is its `g_error`. -/
def unionSwitch (mem : Memory) (discriminator : CTypeCode) (a : Nat) : Option Int :=
  if discriminator.readsSwitch then some (mem.label discriminator.skipAlias.kind a) else none

section
variable (mem : Memory) (floatEqual : List UInt8 → List UInt8 → Bool)

mutual

/-- `ORBit_value_equivalent`. -/
@[grind =] def valueEquivalent : CTypeCode → Nat → Nat → Compared
  | .node info subtypes discriminator, a, b =>
      match info.kind with
      | .alias => equivalentHead subtypes a b
      | .null | .void => .same a b
      | .short | .ushort | .wchar => mem.alignCompare 2 a b
      | .enum | .long | .ulong => mem.alignCompare 4 a b
      | .longlong | .ulonglong => mem.alignCompare 8 a b
      | .float | .double | .longdouble => mem.floatCompare floatEqual info.kind.sizeof a b
      | .char | .octet => mem.alignCompare 1 a b
      | .boolean =>
          let ba := mem.byte a != 0
          let bb := mem.byte b != 0
          if (ba && bb) || (!ba && !bb) then .same (a+1) (b+1) else .differ
      | .string =>
          if mem.strcmpEqual (2^64) (mem.pointer a) (mem.pointer b) then .same (a+8) (b+8)
          else .differ
      | .wstring => .differ
      -- CORBA_Object_is_equivalent is given the slots, not what they point to
      | .typeCode | .objref => if a = b then .same (a+8) (b+8) else .differ
      -- the TypeCode of an any is taken for a CORBA_any
      | .any => .lost
      | .struct | .except =>
          (equivalentMembers a b subtypes 0).andThen fun a' b' =>
            .same (a + alignUp (a'-a) (CTypeCode.widestAlignment subtypes))
              (b + alignUp (b'-b) (CTypeCode.widestAlignment subtypes))
      | .sequence =>
          if mem.word (a+4) 4 ≠ mem.word (b+4) 4 then .differ
          else
            (equivalentLoop (fun x y => equivalentHead subtypes x y) (mem.word (a+4) 4) 0
              (mem.pointer (a+8)) (mem.pointer (b+8))).andThen fun _ _ => .same (a+24) (b+24)
      | .union =>
          let tc := CTypeCode.node info subtypes discriminator
          match discriminator with
          | none => .lost
          | some d =>
              match mem.unionSwitch d a, mem.unionSwitch d b with
              | some switch, some switch' =>
                  match (tc.arm switch).equal (tc.arm switch') with
                  | none => .lost
                  | some false => .differ
                  | some true =>
                      (valueEquivalent d a b).andThen fun _ _ =>
                        (equivalentArm subtypes
                          (getUnionTag info.sublabels info.defaultIndex switch)
                          (a + tc.bodyOffset) (b + tc.bodyOffset)).andThen fun _ _ =>
                            .same (a + alignUp tc.gatherAllocInfo tc.findCAlignment)
                              (b + alignUp tc.gatherAllocInfo tc.findCAlignment)
              | _, _ => .lost
      | .array => equivalentLoop (fun x y => equivalentHead subtypes x y) info.length 0 a b
      | _ => .differ

/-- `ORBit_value_equivalent` for `tc->subtypes [0]`. -/
@[grind =] def equivalentHead : List CTypeCode → Nat → Nat → Compared
  | [], _, _ => .lost
  | tc :: _, a, b => valueEquivalent tc a b

/-- The loop over the members of a struct, from `offset` on; it ends behind the last one. -/
@[grind =] def equivalentMembers (a b : Nat) : List CTypeCode → Nat → Compared
  | [], offset => .same (a + offset) (b + offset)
  | tc :: tcs, offset =>
      let offset := alignUp offset tc.findCAlignment
      (valueEquivalent tc (a + offset) (b + offset)).andThen fun _ _ =>
        equivalentMembers a b tcs (offset + tc.gatherAllocInfo)

/-- The arm `ORBit_get_union_tag` has chosen; `TC_null` when there is none. -/
@[grind =] def equivalentArm : List CTypeCode → Option Nat → Nat → Nat → Compared
  | [], _, a, b => .same a b
  | _ :: _, none, a, b => .same a b
  | tc :: _, some 0, a, b => valueEquivalent tc a b
  | _ :: tcs, some (i+1), a, b => equivalentArm tcs (some i) a b

end

/-- `ORBit_any_equivalent`; `pending` is an exception already in the environment, `none` no
answer. -/
def anyEquivalent (pending : Bool) (obj any : Nat) : Option Bool :=
  if obj = 0 ∧ any = 0 then some true
  else if obj = 0 ∨ any = 0 then some false
  else if mem.pointer obj = 0 ∨ mem.pointer any = 0 then some false
  else
    match (mem.typeCode (mem.pointer obj)).equal (mem.typeCode (mem.pointer any)) with
    | none => none
    | some false => some false
    | some true =>
        if pending then some false
        else
          match valueEquivalent mem floatEqual (mem.typeCode (mem.pointer any))
              (mem.pointer (obj+8)) (mem.pointer (any+8)) with
          | .same _ _ => some true
          | .differ => some false
          | .lost => none

end
end Memory

/-- A value, wherever it lies. Numbers are kept as the bytes that stand for them, object
references as what they point to, and the arm of a union with its TypeCode. -/
inductive Content where
  | number (bytes : List UInt8)
  | boolean (truth : Bool)
  | string (chars : List UInt8)
  | wstring (units : List Nat)
  | object (reference : Nat)
  | typeCode (tc : CTypeCode)
  | any (type : CTypeCode) (value : Content)
  | record (members : List Content)
  | union (discriminator : Content) (arm : CTypeCode) (body : Content)
  | seq (elements : List Content)

namespace Content

mutual

/-- Structural equality. -/
@[grind =] def same : Content → Content → Bool
  | .number bytes, .number bytes' => bytes == bytes'
  | .boolean truth, .boolean truth' => truth == truth'
  | .string chars, .string chars' => chars == chars'
  | .wstring units, .wstring units' => units == units'
  | .object reference, .object reference' => reference == reference'
  | .typeCode tc, .typeCode tc' => tc.equal tc' == some true
  | .any type value, .any type' value' => type.equal type' == some true && same value value'
  | .record members, .record members' => sameAll members members'
  | .union discriminator arm body, .union discriminator' arm' body' =>
      arm.equal arm' == some true && (same discriminator discriminator' && same body body')
  | .seq elements, .seq elements' => sameAll elements elements'
  | _, _ => false

@[grind =] def sameAll : List Content → List Content → Bool
  | [], [] => true
  | v :: vs, v' :: vs' => same v v' && sameAll vs vs'
  | _, _ => false

end
end Content

/-- The kinds compared bit by bit. -/
def TCKind.isNumber : TCKind → Bool
  | .null | .void | .short | .ushort | .wchar | .enum | .long | .ulong | .longlong | .ulonglong
  | .char | .octet => true
  | _ => false

namespace Memory
variable (mem : Memory)

/-- A zero-terminated string at `p`. -/
def hasString (p : Nat) (chars : List UInt8) : Prop :=
  mem.bytes p (chars.length + 1) = chars ++ [0] ∧ (∀ c ∈ chars, c ≠ 0) ∧ chars.length < 2^64

/-- A zero-terminated string of 16-bit units at `p`. -/
def hasUnits (p : Nat) (units : List Nat) : Prop :=
  (List.range (units.length + 1)).map (fun i => mem.word (p + 2*i) 2) = units ++ [0] ∧
    ∀ u ∈ units, u ≠ 0

mutual

/-- A value of a TypeCode lies at an address: any kind but fixed, Principal and the
floating-point ones. -/
@[grind =] def holds (tc : CTypeCode) (a : Nat) : Content → Prop
  | .number bytes =>
      tc.skipAlias.kind.isNumber = true ∧ mem.bytes a tc.skipAlias.kind.sizeof = bytes
  | .boolean truth => tc.skipAlias.kind = .boolean ∧ (mem.byte a != 0) = truth
  | .string chars => tc.skipAlias.kind = .string ∧ mem.hasString (mem.pointer a) chars
  | .wstring units => tc.skipAlias.kind = .wstring ∧ mem.hasUnits (mem.pointer a) units
  | .object reference => tc.skipAlias.kind = .objref ∧ mem.pointer a = reference
  | .typeCode type =>
      tc.skipAlias.kind = .typeCode ∧ mem.typeCode (mem.pointer a) = type ∧
        type.wellFormed = true
  | .any type value =>
      tc.skipAlias.kind = .any ∧ mem.typeCode (mem.pointer a) = type ∧ mem.pointer a ≠ 0 ∧
        type.wellFormed = true ∧ holds type (mem.pointer (a+8)) value
  | .record members =>
      (tc.skipAlias.kind = .struct ∨ tc.skipAlias.kind = .except) ∧
        holdsAll tc.skipAlias.subtypes a 0 members
  | .union discriminator arm body =>
      tc.skipAlias.kind = .union ∧
        ∃ d, tc.skipAlias.discriminator = some d ∧ holds d a discriminator ∧
          arm.core = (tc.skipAlias.arm (mem.label d.skipAlias.kind a)).core ∧
          arm.wellFormed = true ∧ holds arm (a + tc.skipAlias.bodyOffset) body
  | .seq elements =>
      tc.skipAlias.kind = .sequence ∧ mem.word (a+4) 4 = elements.length ∧
          holdsEach tc.skipAlias.element (mem.pointer (a+8)) elements ∨
        tc.skipAlias.kind = .array ∧ tc.skipAlias.info.length = elements.length ∧
          holdsEach tc.skipAlias.element a elements

/-- The members of a struct that begins at `a`, from `offset` on. -/
@[grind =] def holdsAll (tcs : List CTypeCode) (a offset : Nat) : List Content → Prop
  | [] => tcs = []
  | v :: vs =>
      match tcs with
      | [] => False
      | tc :: tcs =>
          holds tc (a + alignUp offset tc.findCAlignment) v ∧
            holdsAll tcs a (alignUp offset tc.findCAlignment + tc.gatherAllocInfo) vs

@[grind =] def holdsEach (tc : CTypeCode) (a : Nat) : List Content → Prop
  | [] => True
  | v :: vs => holds tc a v ∧ holdsEach tc (a + tc.gatherAllocInfo) vs

end
end Memory

/-- A pair of parts the code comes to, and whether they are the same. -/
inductive Comparison where
  /-- Numbers, strings, lengths, arms: compared for what they are. -/
  | plain (same : Bool)
  | wide (same : Bool)
  /-- References and TypeCodes, in one slot or in two. -/
  | slots (together same : Bool)
  /-- An any, a discriminator that cannot be read, a loop index past its type. -/
  | lost (same : Bool)
  deriving DecidableEq

namespace Comparison

/-- One slot holds one reference. -/
@[grind =] def same : Comparison → Bool
  | .plain same | .wide same | .lost same => same
  | .slots together same => together || same

/-- The code goes on to the next pair. -/
def passes : Comparison → Bool
  | .plain same => same
  | .slots together _ => together
  | _ => false

/-- What the code returns for pairs in this order. -/
@[grind =] def judge : List Comparison → Option Bool
  | [] => some true
  | .plain same :: cs => if same then judge cs else some false
  | .wide _ :: _ => some false
  | .slots together _ :: cs => if together then judge cs else some false
  | .lost _ :: _ => none

/-- The first pair that the code does not go on from differs, or is a wide string, a
reference or a TypeCode and the values differ somewhere. -/
def Careful (cs : List Comparison) : Prop :=
  match cs.dropWhile passes with
  | [] => True
  | .plain _ :: _ => True
  | .lost _ :: _ => False
  | _ :: _ => ∃ c ∈ cs, c.same = false

end Comparison

namespace Memory
variable (mem : Memory)

mutual

/-- The pairs in the order of the parts, up to different lengths or arms. -/
@[grind =] def comparisons (tc : CTypeCode) (a b : Nat) : Content → Content → List Comparison
  | .number bytes, .number bytes' => [.plain (bytes == bytes')]
  | .boolean truth, .boolean truth' => [.plain (truth == truth')]
  | .string chars, .string chars' => [.plain (chars == chars')]
  | .wstring units, .wstring units' => [.wide (units == units')]
  | .object reference, .object reference' => [.slots (a == b) (reference == reference')]
  | .typeCode type, .typeCode type' => [.slots (a == b) (type.equal type' == some true)]
  | .any type value, .any type' value' =>
      [.lost ((Content.any type value).same (.any type' value'))]
  | .record members, .record members' =>
      comparisonsAll tc.skipAlias.subtypes a b 0 members members'
  | .union discriminator arm body, .union discriminator' arm' body' =>
      match tc.skipAlias.discriminator with
      | none => []
      | some d =>
          if d.readsSwitch then
            if arm.equal arm' = some true then
              comparisons d a b discriminator discriminator' ++
                comparisons (tc.skipAlias.arm (mem.label d.skipAlias.kind a))
                  (a + tc.skipAlias.bodyOffset) (b + tc.skipAlias.bodyOffset) body body'
            else [.plain false]
          else
            [.lost ((Content.union discriminator arm body).same
              (.union discriminator' arm' body'))]
  | .seq elements, .seq elements' =>
      if tc.skipAlias.kind = .sequence then
        if elements.length = elements'.length then
          comparisonsEach tc.skipAlias.element (mem.pointer (a+8)) (mem.pointer (b+8)) 0 elements
            elements'
        else [.plain false]
      else comparisonsEach tc.skipAlias.element a b 0 elements elements'
  | _, _ => []

@[grind =] def comparisonsAll (tcs : List CTypeCode) (a b offset : Nat) :
    List Content → List Content → List Comparison
  | v :: vs, v' :: vs' =>
      match tcs with
      | [] => []
      | tc :: tcs =>
          comparisons tc (a + alignUp offset tc.findCAlignment)
              (b + alignUp offset tc.findCAlignment) v v' ++
            comparisonsAll tcs a b (alignUp offset tc.findCAlignment + tc.gatherAllocInfo) vs vs'
  | _, _ => []

@[grind =] def comparisonsEach (tc : CTypeCode) (a b i : Nat) :
    List Content → List Content → List Comparison
  | v :: vs, v' :: vs' =>
      comparisons tc a b v v' ++
        if i + 1 = 2^31 then .lost true :: comparisonsEach tc (a + tc.gatherAllocInfo)
          (b + tc.gatherAllocInfo) (i+1) vs vs'
        else comparisonsEach tc (a + tc.gatherAllocInfo) (b + tc.gatherAllocInfo) (i+1) vs vs'
  | _, _ => []

end
end Memory

attribute [grind =] Memory.valueEquivalent Memory.holds Memory.comparisons

end ORBit2
