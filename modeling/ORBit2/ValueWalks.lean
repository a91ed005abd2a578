import ORBit2.Layout

/-! The functions that walk over a value in memory, and the pointer each of them moves. A
value is a tree that knows nothing of addresses: where a part is looked for is up to the
walk. Blocks of memory are told apart by the slots that lead to them. -/

set_option autoImplicit false

namespace ORBit2
open Words

variable {α : Type}

/-- A value, with contents `α` for what has no parts. The label of a union is kept as the
number `ORBit_get_union_switch` reads. -/
inductive CValue (α : Type) where
  | atom (content : α)
  | any (type : CTypeCode) (value : CValue α)
  | record (members : List (CValue α))
  | union (switch : Int) (body : CValue α)
  | seq (elements : List (CValue α))

namespace CTypeCode

/-- `TC_null`. -/
@[grind =] def null : CTypeCode := basic .null

/-- `tc->subtypes [0]`. -/
def element (tc : CTypeCode) : CTypeCode := tc.subtypes.headD null

/-- The kinds `ORBit_get_union_switch` reads. -/
def readsSwitch (tc : CTypeCode) : Bool :=
  match tc.skipAlias.kind with
  | .ulong | .long | .enum | .ushort | .short | .char | .boolean | .octet => true
  | _ => false

/-- `ORBit_get_union_tag`. -/
def arm (tc : CTypeCode) (switch : Int) : CTypeCode :=
  match getUnionTag tc.info.sublabels tc.info.defaultIndex switch with
  | some i => tc.subtypes.getD i null
  | none => null

/-- Where the body of a union begins. -/
def bodyOffset (tc : CTypeCode) : Nat :=
  alignUp (gatherDiscriminator tc.discriminator) tc.findCAlignment

/-- The kinds that have no parts in the memory they occupy. -/
def isAtom (tc : CTypeCode) : Bool :=
  match tc.skipAlias.kind with
  | .any | .struct | .except | .union | .sequence | .array | .alias => false
  | _ => true

end CTypeCode

/-- What a walk does: it is called for a value, and it turns to an element of an array or of
the buffer of a sequence, `room` being the end of the block it is in. -/
inductive Step where
  | call (block : List Nat) (tc : CTypeCode) (start stop room : Nat)
  | element (tc : CTypeCode) (first index place room : Nat)

structure Walk where
  stop : Nat
  steps : List Step

/-- What the walks differ in: the kinds they handle, how far an any and a union move the
pointer, the type of their loop index, and the block the elements of a sequence lie in,
as large as it is when one of them is visited. -/
structure Walker where
  handles : TCKind → Bool
  anySize : Nat
  unionSize : CTypeCode → Nat
  loopLimit : (container element : TCKind) → Nat
  room : (element : CTypeCode) → (length index : Nat) → Nat

namespace Walker

/-- A value without parts. -/
def leaf (W : Walker) (block : List Nat) (room : Nat) (tc : CTypeCode) (start : Nat) :
    Option Walk :=
  if tc.isAtom && W.handles tc.skipAlias.kind then
    let stop := start + tc.skipAlias.kind.sizeof
    some ⟨stop, [.call block tc start stop room]⟩
  else none

mutual

/-- One call; `none` is a `g_error`, an overflow of the loop index, or a value of another
type. -/
@[grind =] def walk (W : Walker) (block : List Nat) (room : Nat) (tc : CTypeCode) (start : Nat) :
    CValue α → Option Walk
  | .atom _ => W.leaf block room tc start
  | .any type value =>
      if tc.skipAlias.kind = .any then do
        let w ← walk W (start :: block) type.allocByTc type 0 value
        let stop := start + W.anySize
        some ⟨stop, .call block tc start stop room :: w.steps⟩
      else none
  | .record members =>
      if tc.skipAlias.kind = .struct ∨ tc.skipAlias.kind = .except then do
        let w ← walkMembers W block room start tc.skipAlias.subtypes 0 members
        let stop := start + alignUp w.stop tc.skipAlias.findCAlignment
        some ⟨stop, .call block tc start stop room :: w.steps⟩
      else none
  | .union switch body =>
      match tc.skipAlias.kind, tc.skipAlias.discriminator with
      | .union, some discriminator => do
          let d ← W.leaf block room discriminator start
          if discriminator.readsSwitch then
            let w ← walk W block room (tc.skipAlias.arm switch) (start + tc.skipAlias.bodyOffset)
              body
            let stop := start + W.unionSize tc.skipAlias
            some ⟨stop, .call block tc start stop room :: (d.steps ++ w.steps)⟩
          else none
      | _, _ => none
  | .seq elements =>
      if elements.length < W.loopLimit tc.skipAlias.kind tc.skipAlias.element.kind then
        match tc.skipAlias.kind with
        | .sequence => do
            let w ← walkElements W (start :: block) (W.room tc.skipAlias.element elements.length)
              tc.skipAlias.element 0 0 0 elements
            let stop := start + TCKind.sequence.sizeof
            some ⟨stop, .call block tc start stop room :: w.steps⟩
        | .array => do
            let w ← walkElements W block (fun _ => room) tc.skipAlias.element start 0 start elements
            some ⟨w.stop, .call block tc start w.stop room :: w.steps⟩
        | _ => none
      else none

/-- The loop over the members of a struct; `stop` is its `offset`. -/
@[grind =] def walkMembers (W : Walker) (block : List Nat) (room start : Nat) :
    List CTypeCode → Nat → List (CValue α) → Option Walk
  | [], offset, [] => some ⟨offset, []⟩
  | tc :: tcs, offset, v :: vs => do
      let offset := alignUp offset tc.findCAlignment
      let w ← walk W block room tc (start + offset) v
      let ws ← walkMembers W block room start tcs (offset + tc.gatherAllocInfo) vs
      some ⟨ws.stop, w.steps ++ ws.steps⟩
  | _, _, _ => none

/-- The loop over the elements of an array or a sequence. Octets that are copied in one
piece are still gone through one by one here. -/
@[grind =] def walkElements (W : Walker) (block : List Nat) (room : Nat → Nat) (tc : CTypeCode)
    (first : Nat) : (index place : Nat) → List (CValue α) → Option Walk
  | _, place, [] => some ⟨place, []⟩
  | index, place, v :: vs => do
      let w ← walk W block (room index) tc place v
      let ws ← walkElements W block room tc first (index+1) w.stop vs
      some ⟨ws.stop, .element tc first index place (room index) :: (w.steps ++ ws.steps)⟩

end

/-- Every kind but those that `ORBit_marshal_value` and `ORBit_copy_value_core` answer with
`g_error` and `ORBit_demarshal_value` with TRUE. -/
def implemented : TCKind → Bool
  | .fixed | .value | .valueBox | .native | .abstractInterface => false
  | _ => true

def isOctet : TCKind → Bool
  | .boolean | .char | .octet => true
  | _ => false

/-- `ORBit_marshal_value`, with an unsigned `i`. -/
def marshalValue : Walker where
  handles := implemented
  anySize := TCKind.any.sizeof
  unionSize tc :=
    tc.bodyOffset + alignUp (CTypeCode.gatherWidest tc.subtypes) tc.findCAlignment
  loopLimit _ _ := 2^32
  room element length _ := element.allocTcval length

/-- The `alloc` of a sequence under construction when element `i` is stored. -/
@[grind =] def growAlloc : Nat → Nat
  | 0 => 4096
  | i+1 => if i+1 = growAlloc i then growAlloc i * 2 % 2^32 else growAlloc i

/-- `ORBit_demarshal_value`, with a `CORBA_long i`. -/
def demarshalValue : Walker where
  handles := implemented
  anySize := TCKind.any.sizeof
  unionSize tc :=
    tc.bodyOffset + alignUp (CTypeCode.gatherWidest tc.subtypes) tc.findCAlignment
  loopLimit
    | .sequence, element => if isOctet element then 2^32 else 2^31
    | _, _ => 2^31
  room element length i :=
    if isOctet element.kind then length
    else element.allocTcval (min length (growAlloc i))

/-- `ORBit_copy_value_core`: both its pointers move alike, `newval` through the new blocks. -/
def copyValueCore : Walker where
  handles := implemented
  anySize := TCKind.any.sizeof
  unionSize tc := tc.gatherAllocInfo
  loopLimit _ _ := 2^31
  room element length _ := element.allocTcval length

/-- `ORBit_value_equivalent` where it finds no difference; an any is taken for a pointer to
one. -/
def valueEquivalent : Walker where
  handles
    | .wstring | .principal => false
    | kind => implemented kind
  anySize := 8
  unionSize tc := alignUp tc.gatherAllocInfo tc.findCAlignment
  loopLimit _ _ := 2^31
  room element length _ := element.allocTcval length

end Walker

/-- What the comparisons of contents come to; `anys` is `ORBit_any_equivalent` of what
happens to lie at the first words of two anys. -/
structure Verdicts (α : Type) where
  atoms : TCKind → α → α → Bool
  anys : CValue α → CValue α → Bool

/-- The discriminators of two unions compared. -/
def sameSwitch (discriminator : CTypeCode) (a b : Int) : Bool :=
  if discriminator.skipAlias.kind = .boolean then (a != 0) == (b != 0) else a == b

namespace Verdicts

mutual

/-- `ORBit_value_equivalent`: the movement of either pointer where it returns TRUE. -/
@[grind =] def valueEquivalent (V : Verdicts α) (block : List Nat) (room : Nat) (tc : CTypeCode)
    (start : Nat) : CValue α → CValue α → Option Walk
  | .atom a, .atom b =>
      if V.atoms tc.skipAlias.kind a b then Walker.valueEquivalent.leaf block room tc start
      else none
  | .any type value, .any type' value' =>
      if tc.skipAlias.kind = .any ∧ V.anys (.any type value) (.any type' value') then
        let stop := start + Walker.valueEquivalent.anySize
        some ⟨stop, [.call block tc start stop room]⟩
      else none
  | .record members, .record members' =>
      if tc.skipAlias.kind = .struct ∨ tc.skipAlias.kind = .except then do
        let w ← equivalentMembers V block room start tc.skipAlias.subtypes 0 members members'
        let stop := start + alignUp w.stop tc.skipAlias.findCAlignment
        some ⟨stop, .call block tc start stop room :: w.steps⟩
      else none
  | .union switch body, .union switch' body' =>
      match tc.skipAlias.kind, tc.skipAlias.discriminator with
      | .union, some discriminator =>
          if (tc.skipAlias.arm switch).equal (tc.skipAlias.arm switch') = some true ∧
              sameSwitch discriminator switch switch' then do
            let d ← Walker.valueEquivalent.leaf block room discriminator start
            if discriminator.readsSwitch then
              let w ← valueEquivalent V block room (tc.skipAlias.arm switch)
                (start + tc.skipAlias.bodyOffset) body body'
              let stop := start + Walker.valueEquivalent.unionSize tc.skipAlias
              some ⟨stop, .call block tc start stop room :: (d.steps ++ w.steps)⟩
            else none
          else none
      | _, _ => none
  | .seq elements, .seq elements' =>
      if elements.length <
          Walker.valueEquivalent.loopLimit tc.skipAlias.kind tc.skipAlias.element.kind then
        match tc.skipAlias.kind with
        | .sequence => do
            let w ← equivalentElements V (start :: block)
              (Walker.valueEquivalent.room tc.skipAlias.element elements.length)
              tc.skipAlias.element 0 0 0 elements elements'
            let stop := start + TCKind.sequence.sizeof
            some ⟨stop, .call block tc start stop room :: w.steps⟩
        | .array => do
            let w ← equivalentElements V block (fun _ => room) tc.skipAlias.element start 0 start
              elements elements'
            some ⟨w.stop, .call block tc start w.stop room :: w.steps⟩
        | _ => none
      else none
  | _, _ => none

@[grind =] def equivalentMembers (V : Verdicts α) (block : List Nat) (room start : Nat) :
    List CTypeCode → Nat → List (CValue α) → List (CValue α) → Option Walk
  | [], offset, [], [] => some ⟨offset, []⟩
  | tc :: tcs, offset, v :: vs, v' :: vs' => do
      let offset := alignUp offset tc.findCAlignment
      let w ← valueEquivalent V block room tc (start + offset) v v'
      let ws ← equivalentMembers V block room start tcs (offset + tc.gatherAllocInfo) vs vs'
      some ⟨ws.stop, w.steps ++ ws.steps⟩
  | _, _, _, _ => none

@[grind =] def equivalentElements (V : Verdicts α) (block : List Nat) (room : Nat → Nat) (tc : CTypeCode)
    (first : Nat) : (index place : Nat) → List (CValue α) → List (CValue α) → Option Walk
  | _, place, [], [] => some ⟨place, []⟩
  | index, place, v :: vs, v' :: vs' => do
      let w ← valueEquivalent V block (room index) tc place v v'
      let ws ← equivalentElements V block room tc first (index+1) w.stop vs vs'
      some ⟨ws.stop, .element tc first index place (room index) :: (w.steps ++ ws.steps)⟩
  | _, _, _, _ => none

end

end Verdicts
end ORBit2
