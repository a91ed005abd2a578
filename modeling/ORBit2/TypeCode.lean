import ORBit2.Cdr

/-! TypeCodes, the values they describe, and the two recursions that put a value
on the wire and take it off again. A value is kept as a tree: where its parts lie
in C memory is no concern of the wire format. -/

set_option autoImplicit false

namespace ORBit2
open Words

/-- The kinds whose values are one machine word. -/
inductive BasicKind where
  | short | ushort | wchar | long | ulong | enum | float | longlong | ulonglong
  | double | longdouble | boolean | char | octet
  deriving DecidableEq, Repr

/-- `sizeof` of the C type; `CORBA_long_double` is a `gdouble`. -/
def BasicKind.size : BasicKind → Nat
  | .short | .ushort | .wchar => 2
  | .long | .ulong | .enum | .float => 4
  | .longlong | .ulonglong | .double | .longdouble => 8
  | .boolean | .char | .octet => 1

theorem BasicKind.size_dvd (k : BasicKind) : k.size ∣ 8 := by cases k <;> decide

inductive TypeCode where
  | null
  | basic (kind : BasicKind)
  | string
  | wstring
  | struct (subtypes : List TypeCode)
  | except (subtypes : List TypeCode)
  | union (discriminator : TypeCode) (subtypes : List TypeCode) (sublabels : List Int)
      (defaultIndex : Int)
  | sequence (subtype : TypeCode)
  | array (subtype : TypeCode) (length : Nat)
  | alias (subtype : TypeCode)
  deriving Repr

/-- The kinds for which sequences and arrays are copied as one block. -/
def TypeCode.isOctet : TypeCode → Bool
  | .basic .boolean | .basic .char | .basic .octet => true
  | _ => false

/-- A word is kept as its bit pattern. A sequence and an array are both `seq`. -/
inductive Value where
  | null
  | word (n : Nat)
  | string (chars : List UInt8)
  | wstring (chars : List Nat)
  | struct (members : List Value)
  | union (discriminator body : Value)
  | seq (elements : List Value)
  deriving Repr

/-- The low `w` bytes read as a two's complement number. -/
def signed (w n : Nat) : Int := if n < 256 ^ w / 2 then n else (n : Int) - (256 ^ w : Nat)

/-- `ORBit_get_union_switch`; `none` is its `g_error`. -/
def getUnionSwitch : TypeCode → Value → Option Int
  | .alias tc, v => getUnionSwitch tc v
  | .basic .ulong, .word n | .basic .long, .word n | .basic .enum, .word n => some (signed 4 n)
  | .basic .ushort, .word n | .basic .short, .word n => some (signed 2 n)
  | .basic .char, .word n | .basic .boolean, .word n | .basic .octet, .word n => some n
  | _, _ => none

/-- The loop of `ORBit_get_union_tag` from index `i` on. -/
def findLabel (defaultIndex discrim : Int) : Nat → List Int → Option Nat
  | _, [] => none
  | i, label :: labels =>
      if (i : Int) ≠ defaultIndex ∧ label = discrim then some i
      else findLabel defaultIndex discrim (i+1) labels

/-- `ORBit_get_union_tag`: the index into `subtypes`, or `none` for `TC_null`. -/
def getUnionTag (sublabels : List Int) (defaultIndex discrim : Int) : Option Nat :=
  match findLabel defaultIndex discrim 0 sublabels with
  | some i => some i
  | none => if 0 ≤ defaultIndex then some defaultIndex.toNat else none

mutual

/-- The values the C type generated for a TypeCode can hold. A length word counts
every string, and a union's body belongs to the arm its discriminator selects. -/
def hasType : TypeCode → Value → Bool
  | .null, .null => true
  | .basic k, .word n => n < 256 ^ k.size
  | .string, .string s => s.all (· ≠ 0) && s.length + 1 < 2^32
  | .wstring, .wstring s => s.all (fun u => u ≠ 0 && u < 2^16) && (s.length + 1) * 2 < 2^32
  | .struct tcs, .struct vs | .except tcs, .struct vs => hasTypes tcs vs
  | .union d tcs labels dflt, .union dv v =>
      hasType d dv &&
      match getUnionSwitch d dv with
      | none => false
      | some x =>
          match getUnionTag labels dflt x, v with
          | none, .null => true
          | none, _ => false
          | some i, v => hasArmType tcs i v
  | .sequence tc, .seq vs => vs.all (hasType tc) && vs.length < 2^32
  | .array tc n, .seq vs => vs.all (hasType tc) && vs.length == n && n < 2^32
  | .alias tc, v => hasType tc v
  | _, _ => false

def hasTypes : List TypeCode → List Value → Bool
  | [], [] => true
  | tc :: tcs, v :: vs => hasType tc v && hasTypes tcs vs
  | _, _ => false

def hasArmType : List TypeCode → Nat → Value → Bool
  | [], _, _ => false
  | tc :: _, 0, v => hasType tc v
  | _ :: tcs, i+1, v => hasArmType tcs i v

end

/-- The octets of a block of one-byte elements. -/
def Value.octets (vs : List Value) : List UInt8 :=
  vs.map fun | .word n => UInt8.ofNat n | _ => 0

mutual

/-- `ORBit_marshal_value`, as the calls it makes on the send buffer; `none` is a
`g_error`. -/
def marshalValue (host : Endian) : TypeCode → Value → Option (List SendOp)
  | .null, _ => some []
  | .basic k, .word n =>
      if k.size = 1 then some [.append (host.split 1 n)]
      else some [.appendAligned (host.split k.size n)]
  | .string, .string s => some [.appendString s]
  | .wstring, .wstring s =>
      some [.appendAligned (host.split 4 ((s.length+1) * 2)), .append (host.split 2 0xfeff),
        .append (s.flatMap (host.split 2))]
  | .struct tcs, .struct vs | .except tcs, .struct vs => marshalMembers host tcs vs
  | .union d tcs labels dflt, .union dv v => do
      let ops ← marshalValue host d dv
      let x ← getUnionSwitch d dv
      match getUnionTag labels dflt x with
      | none => some ops
      | some i =>
          let ops' ← marshalArm host tcs i v
          some (ops ++ ops')
  | .sequence tc, .seq vs => do
      let length := [SendOp.align 4, .append (host.split 4 vs.length)]
      if tc.isOctet then some (length ++ [.append (Value.octets vs)])
      else
        let ops ← vs.mapM (marshalValue host tc)
        some (length ++ ops.flatten)
  | .array tc _, .seq vs => do
      if tc.isOctet then some [.append (Value.octets vs)]
      else
        let ops ← vs.mapM (marshalValue host tc)
        some ops.flatten
  | .alias tc, v => marshalValue host tc v
  | _, _ => none

def marshalMembers (host : Endian) : List TypeCode → List Value → Option (List SendOp)
  | [], [] => some []
  | tc :: tcs, v :: vs => do
      let ops ← marshalValue host tc v
      let ops' ← marshalMembers host tcs vs
      some (ops ++ ops')
  | _, _ => none

def marshalArm (host : Endian) : List TypeCode → Nat → Value → Option (List SendOp)
  | [], _, _ => none
  | tc :: _, 0, v => marshalValue host tc v
  | _ :: tcs, i+1, v => marshalArm host tcs i v

end

namespace Dec

/-- The bytes up to the first zero at or after `cur`, as `strlen` finds them. -/
def cstring : Dec (List UInt8) := fun c =>
  let rest := c.data.drop c.cur
  if rest.contains 0 then .ok (rest.takeWhile (· ≠ 0), c) else .error .undefined

/-- `(buf->cur + i) > buf->end || (buf->cur + i) < buf->cur` -/
def needSigned (i : Int) : Dec Unit := fun c =>
  if (c.data.length : Int) < c.cur + i ∨ (c.cur : Int) + i < c.cur then .error .fail
  else .ok ((), c)

/-- A length word that the reader keeps in the `CORBA_long i`. -/
def signedLength : Dec Int := do
  let n ← alignedWord 4
  let i := signed 4 n
  needSigned i
  return i

/-- The 16-bit unit at `cur` as it lies in memory, without conversion. -/
def hostUnit : Dec Nat := fun c =>
  if c.data.length < c.cur + 2 then .error .undefined
  else .ok (c.host.join ((c.data.drop c.cur).take 2), c)

/-- The marker with the memory bytes `fe ff`, as this host reads it. -/
def defaultMarker : Dec Nat := fun c => .ok (c.host.join [0xfe, 0xff], c)

/-- The byte-order marker of a text of `i` bytes and the bytes left behind it. -/
def marker (i : Nat) : Dec (Nat × Nat) := do
  let first ← if 2 ≤ i then hostUnit else pure 0
  if first = 0xfeff ∨ first = 0xfffe then
    advance 2
    return (first, i-2)
  else
    let marker ← defaultMarker
    return (marker, i)

/-- The units of `n` bytes, swapped or not. -/
def units (host : Endian) (swap : Bool) (bytes : List UInt8) : Nat → List Nat
  | 0 => []
  | k+1 =>
      let u := host.join (bytes.take 2)
      (if swap then swapWord 2 u else u) :: units host swap (bytes.drop 2) k

/-- The characters of a wstring: the 16-bit units up to the first zero one. When an
odd byte is left over, the copying branch leaves half of the last unit unset. -/
def wchars (swap : Bool) (n : Nat) : Dec (List Nat) := fun c =>
  if c.data.length < c.cur + n then .error .undefined
  else
    let us := units c.host swap (c.data.drop c.cur) (n/2)
    if n % 2 = 1 ∧ swap = false ∧ 0 ∉ us then .error .undefined
    else .ok (us.takeWhile (· ≠ 0), c)

end Dec

/-- The block a sequence grows into: its elements so far and its room. -/
structure GrowBuffer where
  elements : List Value
  room : Nat
  alloc : Nat

/-- `ORBit_realloc_tcval` when the index has reached `alloc`; it asserts that the
new block is larger. -/
def GrowBuffer.grow (length : Nat) (b : GrowBuffer) : Dec GrowBuffer :=
  if b.elements.length = b.alloc then
    let double := b.alloc * 2 % 2^32
    if min double length ≤ b.alloc then Dec.stop .undefined
    else pure { b with room := min double length, alloc := double }
  else pure b

/-- Storing element `i` and incrementing the `CORBA_long i`. -/
def GrowBuffer.store (v : Value) (b : GrowBuffer) : Dec GrowBuffer :=
  if b.elements.length < b.room ∧ b.elements.length + 1 < 2^31 then
    pure { b with elements := b.elements ++ [v] }
  else Dec.stop .undefined

/-- The element loop of a sequence, with `k` elements to go. -/
def growLoop (element : Dec Value) (length : Nat) : Nat → GrowBuffer → Dec (List Value)
  | 0, b => pure b.elements
  | k+1, b => do
      let b ← b.grow length
      let v ← element
      let b ← b.store v
      growLoop element length k b

/-- The element loop of an array: `i` is the index of the next element, again a
`CORBA_long`. -/
def arrayLoop (element : Dec Value) : Nat → Nat → Dec (List Value)
  | 0, _ => pure []
  | k+1, i => do
      let v ← element
      if i + 1 < 2^31 then
        let vs ← arrayLoop element k (i+1)
        return v :: vs
      else Dec.stop .undefined

mutual

/-- `ORBit_demarshal_value` -/
def demarshalValue : TypeCode → Dec Value
  | .null => pure .null
  | .basic k => do
      if k.size = 1 then
        Dec.need 1
        let n ← Dec.peek 1
        Dec.advance 1
        return .word n
      else
        let n ← Dec.alignedWord k.size
        return .word n
  | .string => do
      let i ← Dec.signedLength
      let s ← Dec.cstring
      Dec.advance i.toNat
      return .string s
  | .wstring => do
      let i ← Dec.signedLength
      let (marker, n) ← Dec.marker i.toNat
      let s ← Dec.wchars (marker = 0xfffe) n
      Dec.advance n
      return .wstring s
  | .struct tcs | .except tcs => do
      let vs ← demarshalMembers tcs
      return .struct vs
  | .union d tcs labels dflt => do
      let dv ← demarshalValue d
      match getUnionSwitch d dv with
      | none => Dec.stop .undefined
      | some x =>
          match getUnionTag labels dflt x with
          | none => return .union dv .null
          | some i =>
              let v ← demarshalArm tcs i
              return .union dv v
  | .sequence tc => do
      let length ← Dec.alignedWord 4
      if length = 0 then return .seq []
      else if tc.isOctet then
        let bs ← Dec.octets length
        return .seq (bs.map fun b => .word b.toNat)
      else
        let vs ← growLoop (demarshalValue tc) length length ⟨[], min length 4096, 4096⟩
        return .seq vs
  | .array tc n => do
      let vs ← arrayLoop (demarshalValue tc) n 0
      return .seq vs
  | .alias tc => demarshalValue tc

def demarshalMembers : List TypeCode → Dec (List Value)
  | [] => pure []
  | tc :: tcs => do
      let v ← demarshalValue tc
      let vs ← demarshalMembers tcs
      return v :: vs

/-- `subtc = subtypes[i]`, where the index lies inside. -/
def demarshalArm : List TypeCode → Nat → Dec Value
  | [], _ => Dec.stop .undefined
  | tc :: _, 0 => demarshalValue tc
  | _ :: tcs, i+1 => demarshalArm tcs i

end

end ORBit2
