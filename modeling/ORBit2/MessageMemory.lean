import ORBit2.Base.Peeking
import ORBit2.ObjectReferences
import ORBit2.UnionSelection

/-! `ORBit_demarshal_value` and what it calls, over the memory that a message lies in. What is
checked against `end` is read from the message; what is not, from wherever it lies. -/

set_option autoImplicit false

namespace ORBit2
open Words Peeking

/-- The error of a step is kept, and the places where it would read behind the message. -/
def Dec.prog {α : Type} (m : Dec α) : Prog RecvCursor α := Prog.lift fun c =>
  match m c with
  | .ok (a, c') => some (.ok a c')
  | .error .fail => some (.fail c)
  | .error .undefined => none

def Reading.prog {σ α : Type} (m : Reading σ α) : Prog σ α := Prog.lift fun s =>
  match m s with
  | .ok a s => some (.ok a s)
  | .fail s => some (.fail s)
  | .crash => some .abort

/-- The byte order that the flags of an encapsulation announce. -/
def orderOf (flags : List UInt8) : Endian := if flags.headD 0 &&& 1 = 1 then .little else .big

/-- The address of `cur`. -/
def RecvCursor.here (c : RecvCursor) : Nat := c.base + c.cur

/-- `giop_recv_buffer_use_encaps_buf`, up to the pointer to the encapsulation. -/
def encapsLength : Dec Nat := do
  let len ← Dec.alignedWord 4
  Dec.need len
  return len

namespace InMemory

/-! ### TypeCodes -/

section
variable (dec : Prog TcState Decoded)

/-- A call whose result goes into the TypeCode that is being filled in. -/
def decField (set : Decoded → Draft → Draft) : Prog (Draft × TcState) Decoded := do
  let tc ← dec.within (fun s => s.2) fun s t => (s.1, t)
  Prog.lift fun s => some (.ok tc (set tc s.1, s.2))

def decSubtype : Prog (Draft × TcState) Decoded :=
  decField dec fun tc d => { d with subtypes := d.subtypes ++ [tc] }

def decOnly : Prog (Draft × TcState) Decoded :=
  decField dec fun tc d =>
    { d with fields := { d.fields with subParts := some 1 }, subtypes := [tc] }

def decDiscriminator : Prog (Draft × TcState) Decoded :=
  decField dec fun tc d => { d with discriminator := tc }

/-- The member loop of a struct or an exception. -/
def decMembers : Nat → Prog (Draft × TcState) Unit
  | 0 => pure ()
  | n+1 => do
      let _ ← decSubname.prog
      let _ ← decSubtype dec
      decMembers n

/-- `MEMBER_LOOPER_DEC`. -/
def decArms (discriminator : TCKind) (w : Nat) : Nat → Prog (Draft × TcState) Unit
  | 0 => pure ()
  | n+1 => do
      let _ ← (decLabel discriminator w).prog
      let _ ← decSubname.prog
      let _ ← decSubtype dec
      decArms discriminator w n

/-- The switch on `t->discriminator->kind`. -/
def decUnionMembers (subParts : Nat) : Decoded → Prog (Draft × TcState) Unit
  | .null => Prog.abort
  | .node fields _ _ =>
      match fields.kind.labelWidth with
      | some w => decArms dec fields.kind w subParts
      | none => Prog.abort

/-- The decoders of `tk_info`. -/
def decoder : TCKind → Prog (Draft × TcState) Unit
  | .struct | .except => do
      let _ ← decRepoId.prog
      let _ ← decName.prog
      let subParts ← decSubParts.prog
      decMembers dec subParts
  | .union => do
      let _ ← decRepoId.prog
      let _ ← decName.prog
      let discriminator ← decDiscriminator dec
      let _ ← decDefaultIndex.prog
      let subParts ← decSubParts.prog
      decUnionMembers dec subParts discriminator
  | .alias => do
      decRepoId.ignored.prog
      decName.ignored.prog
      let _ ← decOnly dec
  | .sequence | .array => do
      let _ ← decOnly dec
      let _ ← decLength.prog
  -- the others read no TypeCode
  | kind => (ORBit2.decoder Reading.fail kind).prog

/-- What a decoder leaves in the TypeCode, whatever it returns. -/
def decDraft (kind : TCKind) : Prog TcState Draft :=
  (do
    (decoder dec kind).caught
    Prog.lift fun s => some (.ok s.1 s)).within (fun s => (Draft.empty kind, s)) fun _ s => s.2

/-- `giop_recv_buffer_use_encaps_buf`; a decoder does not stand the NULL it may return. -/
def useEncapsBuf : Prog TcState Nat := Prog.lift fun s =>
  match encapsLength s.cursor with
  | .ok (len, c) => some (.ok len { s with cursor := c })
  | .error .fail => some .abort
  | .error .undefined => none

/-- `tc_dec` behind a kind that it knows. -/
def tcNode (kind : TCKind) : Prog TcState Decoded := Prog.ask fun s =>
  let index := (s.currentIdx + s.cursor.cur - 4) % 2^32
  match kind.tkType with
  | .empty => Prog.lift fun s =>
      some (.ok kind.basicType { s with prior := (kind.basicType, index) :: s.prior })
  | .simple => do
      let d ← decDraft dec kind
      (tcFinish index d).prog
  | .complex => do
      let len ← useEncapsBuf
      let flags ← Prog.peek fun t => .block t.cursor.here 1
      let d ← (decDraft dec kind).within
        (fun t => { t with
          cursor := ⟨t.cursor.here, (t.cursor.data.drop t.cursor.cur).take len, 1, t.cursor.host,
            orderOf flags⟩
          currentIdx := (s.currentIdx + (s.cursor.cur + 4)) % 2^32 })
        fun t u => { u with
          cursor := { t.cursor with cur := t.cursor.cur + len }, currentIdx := s.currentIdx }
      (tcFinish index d).prog

end

/-- `tc_dec`. -/
def tcDec : Nat → Prog TcState Decoded
  | 0 => Prog.abort
  | depth+1 => do
      let lkind ← (cdrGet 4).prog
      match TCKind.all[lkind]? with
      | some kind => tcNode (tcDec depth) kind
      | none => if lkind = tkRecursive then tcRecursive.prog else Prog.fail

/-- `ORBit_decode_CORBA_TypeCode`. -/
def decodeTypeCode : Prog RecvCursor Decoded := Prog.ask fun c =>
  (tcDec (c.data.length + 1)).within (fun c => ⟨c, [], 0⟩) fun _ s => s.cursor

/-! ### Object references -/

/-- `giop_recv_buffer_use_encaps_buf`, and what is done with the buffer it returns. -/
def encaps {α : Type} (inside : Bool) (m : Prog RecvCursor α) : Prog RecvCursor α := do
  let len ← encapsLength.prog
  let flags ← Prog.peek fun c => .block c.here 1
  m.within
    (fun c => { c with
      data := c.data.take (c.cur + len), cur := c.cur + 1
      sender := if inside then orderOf flags else c.sender })
    fun c _ => { c with cur := c.cur + len }

/-- `CodeSetComponent_demarshal`, up to the loop. The number of bytes is computed in 32 bits. -/
def codeSetHead : Dec (UInt32 × Nat) := do
  Dec.align 4
  Dec.need 8
  let nativeCodeSet ← Dec.ulong
  let sequenceLength ← Dec.word 4
  Dec.need (sequenceLength * 4 % 2^32)
  return (nativeCodeSet, sequenceLength)

/-- So many words, in the order of the sender. -/
def codeSetIds (c : RecvCursor) (bytes : List UInt8) : Nat → List UInt32
  | 0 => []
  | n+1 =>
      let id := c.host.join (bytes.take 4)
      UInt32.ofNat (if c.sender = c.host then id else swapWord 4 id) :: codeSetIds c (bytes.drop 4) n

/-- `CodeSetComponent_demarshal`. -/
def demarshalCodeSet : Prog RecvCursor CodeSetComponent := do
  let (nativeCodeSet, sequenceLength) ← codeSetHead.prog
  let bytes ← Prog.peek fun c => .block c.here (4 * sequenceLength)
  (Dec.advance (4 * sequenceLength)).prog
  Prog.ask fun c => pure ⟨nativeCodeSet, codeSetIds c bytes sequenceLength⟩

/-- `IOP_TAG_SSL_SEC_TRANS_demarshal`, inside its encapsulation. -/
def sslSecTrans : Dec (IopComponent Block) := do
  Dec.align 4
  Dec.need 10
  let targetSupports ← Dec.ulong
  let targetRequires ← Dec.ulong
  let port ← Dec.ushort
  return .sslSecTrans targetSupports targetRequires port

/-- The `switch` of `IOP_components_demarshal`. -/
def demarshalComponentOf (cid : UInt32) : Prog RecvCursor (IopComponent Block) := do
  if h : cid ∉ knownComponents then
    let data ← Dec.counted.prog
    return .unknown ⟨cid, h⟩ data
  else if cid = tagCompleteObjectKey then
    let objectKey ← Dec.counted.prog
    return .completeObjectKey (some objectKey)
  else if cid = tagGenericSslSecTrans then
    let service ← encaps false Dec.stringBlock.prog
    return .genericSslSecTrans service
  else if cid = tagSslSecTrans then encaps false sslSecTrans.prog
  else
    encaps true do
      let forCharData ← demarshalCodeSet
      let forWcharData ← demarshalCodeSet
      return .codeSets forCharData forWcharData

/-- `IOP_components_demarshal`. -/
def demarshalComponents : Prog RecvCursor (List (IopComponent Block)) := do
  let len ← (Dec.alignedWord 4).prog
  Prog.times (do
    let cid ← (Dec.alignedWord 4).prog
    demarshalComponentOf (UInt32.ofNat cid)) len

/-- `IOP_TAG_INTERNET_IOP_demarshal`, inside its encapsulation. -/
def demarshalInternetIop : Prog RecvCursor (IopProfile Block) := do
  let version ← Dec.version.prog
  let host ← Dec.stringBlock.prog
  let port ← Dec.port.prog
  let objectKey ← Dec.counted.prog
  let components ← if version ≠ .v1_0 then demarshalComponents else pure []
  return .internetIop version host port (some objectKey) components

/-- `IOP_TAG_GENERIC_IOP_demarshal`, inside its encapsulation. -/
def demarshalGenericIop : Prog RecvCursor (IopProfile Block) := do
  let version ← Dec.version.prog
  let proto ← Dec.stringBlock.prog
  let host ← Dec.stringBlock.prog
  let service ← Dec.stringBlock.prog
  let components ← demarshalComponents
  return .genericIop version proto host service components

/-- The `switch` of `IOP_profile_demarshal`. -/
def demarshalProfileOf (p : UInt32) : Prog RecvCursor (IopProfile Block) := do
  if h : p ∉ knownProfiles then
    let data ← Dec.counted.prog
    return .unknown ⟨p, h⟩ data
  else if p = tagInternetIop then encaps true demarshalInternetIop
  else if p = tagMultipleComponents then
    let components ← encaps true demarshalComponents
    return .multipleComponents components
  else if p = tagGenericIop then encaps true demarshalGenericIop
  else encaps true demarshalOrbitSpecific.prog

/-- `IOP_profile_demarshal`. -/
def demarshalProfile : Prog RecvCursor (IopProfile Block) := do
  let p ← (Dec.alignedWord 4).prog
  demarshalProfileOf (UInt32.ofNat p)

/-- The type id, as an address in the message, and the number of profiles. -/
def iorHead : Dec (Nat × Nat) := do
  let len ← Dec.alignedWord 4
  Dec.need len
  let typeId ← (fun c => .ok (c.here, c) : Dec Nat)
  Dec.advance len
  let numProfiles ← Dec.alignedWord 4
  return (typeId, numProfiles)

/-- `ORBit_demarshal_IOR`; it may find neither a type id nor a profile. -/
def demarshalIOR : Prog RecvCursor (Option (Nat × List (IopProfile Block))) := do
  let (typeId, numProfiles) ← iorHead.prog
  let first ← Prog.peek fun _ => .block typeId 1
  if first.headD 0 = 0 ∧ numProfiles = 0 then return none
  else
    let profiles ← demarshalProfile.times numProfiles
    return some (typeId, profiles)

/-- A receive buffer, and the object references that the ORB knows. -/
structure Receiving where
  cursor : RecvCursor
  objrefs : Option (List Reference)

def onCursor {α : Type} (m : Prog RecvCursor α) : Prog Receiving α :=
  m.within Receiving.cursor fun s c => { s with cursor := c }

/-- `ORBit_demarshal_object`. -/
def demarshalObject : Prog Receiving (Option Reference) := do
  match ← onCursor demarshalIOR with
  | none => return none
  | some (typeId, profiles) =>
      let chars ← Prog.peek fun _ => .text typeId
      Prog.lift fun s =>
        match objrefFind s.objrefs (some (chars ++ [0])) profiles with
        | .ok (obj, objrefs) => some (.ok (some obj) { s with objrefs := objrefs })
        | .error _ => some .abort

/-! ### Values -/

/-- The units of a wide string are as they have been stored; behind them there may be a byte
that has been copied for half a unit. -/
inductive Received where
  | void
  | number (n : Nat)
  | string (chars : List UInt8)
  | wstring (units : List Nat) (half : Option UInt8)
  | principal (octets : List UInt8)
  | object (obj : Option Reference)
  | typeCode (tc : Decoded)
  | any (type : Decoded) (value : Received)
  | record (members : List Received)
  | union (discriminator body : Received)
  | seq (elements : List Received)

/-- A number of so many bytes. -/
def number (w : Nat) : Dec Nat :=
  if w = 1 then do
    let bytes ← Dec.octets 1
    return (bytes.headD 0).toNat
  else Dec.alignedWord w

/-- The bytes of a wide string, and whether they are swapped. -/
def wideText : Dec (Bool × List UInt8) := do
  let i ← Dec.signedLength
  let (marker, n) ← Dec.marker i.toNat
  let bytes ← Dec.peekBytes n
  Dec.advance n
  return (decide (marker = 0xfffe), bytes)

def storedText (host : Endian) : Bool × List UInt8 → Received
  | (true, bytes) => .wstring (Dec.units host true bytes (bytes.length / 2)) none
  | (false, bytes) =>
      .wstring (Dec.units host false bytes (bytes.length / 2))
        (if bytes.length % 2 = 1 then bytes.getLast? else none)

/-- `CORBA_string_dup` of what stands at `cur`, whatever the length before it. -/
def demarshalString : Prog Receiving Received := do
  let i ← onCursor Dec.signedLength.prog
  let chars ← Prog.peek fun s => .text s.cursor.here
  onCursor (Dec.advance i.toNat).prog
  return .string chars

/-- `ORBit_get_union_switch`. -/
def unionSwitch (discriminator : CTypeCode) : Received → Option Int
  | .number n => discriminator.skipAlias.kind.unionSwitch n
  | _ => none

/-- The loop over the elements of a sequence or an array, with a `CORBA_long i`. -/
def elementLoop (element : Prog Receiving Received) : (left i : Nat) → Prog Receiving (List Received)
  | 0, _ => return []
  | left+1, i => do
      let v ← element
      if i + 1 = 2^31 then Prog.abort
      else
        let vs ← elementLoop element left (i+1)
        return v :: vs

/-- The kinds that a sequence copies as one block. -/
def copiedWhole : List CTypeCode → Bool
  | tc :: _ => decide (tc.kind = .octet ∨ tc.kind = .boolean ∨ tc.kind = .char)
  | [] => false

section
variable (any : Prog Receiving Received)

mutual

/-- `ORBit_demarshal_value`, over what it does with an any. -/
def demarshalValue : CTypeCode → Prog Receiving Received
  | .node info subtypes discriminator =>
      match info.kind with
      | .alias => demarshalHead subtypes
      | .short | .ushort | .wchar | .long | .ulong | .enum | .longlong | .ulonglong | .longdouble
      | .float | .double | .boolean | .char | .octet => do
          let n ← onCursor (number info.kind.sizeof).prog
          return .number n
      | .any => any
      | .principal => do
          let octets ← onCursor Dec.counted.prog
          return .principal octets
      | .objref => do
          let obj ← demarshalObject
          return .object obj
      | .typeCode => do
          let tc ← onCursor decodeTypeCode
          return .typeCode tc
      | .except | .struct => do
          let members ← demarshalMembers subtypes
          return .record members
      | .union =>
          match discriminator with
          | none => Prog.abort
          | some d => do
              let switch ← demarshalValue d
              match unionSwitch d switch with
              | none => Prog.abort
              | some x =>
                  let body ← demarshalArm subtypes (getUnionTag info.sublabels info.defaultIndex x)
                  return .union switch body
      | .string => demarshalString
      | .wstring => Prog.ask fun s => do
          let text ← onCursor wideText.prog
          return storedText s.cursor.host text
      | .sequence => do
          let length ← onCursor (Dec.alignedWord 4).prog
          if length = 0 then return .seq []
          else if copiedWhole subtypes then
            let octets ← onCursor (Dec.octets length).prog
            return .seq (octets.map fun b => .number b.toNat)
          else
            let elements ← elementLoop (demarshalHead subtypes) length 0
            return .seq elements
      | .array => do
          let elements ← elementLoop (demarshalHead subtypes) info.length 0
          return .seq elements
      | .void | .null => return .void
      | _ => Prog.fail

/-- `ORBit_demarshal_value` for `tc->subtypes [0]`. -/
def demarshalHead : List CTypeCode → Prog Receiving Received
  | [] => Prog.abort
  | tc :: _ => demarshalValue tc

def demarshalMembers : List CTypeCode → Prog Receiving (List Received)
  | [] => return []
  | tc :: tcs => do
      let v ← demarshalValue tc
      let vs ← demarshalMembers tcs
      return v :: vs

/-- The arm `ORBit_get_union_tag` has chosen; `TC_null` when there is none. -/
def demarshalArm : List CTypeCode → Option Nat → Prog Receiving Received
  | _, none => return .void
  | [], some _ => Prog.abort
  | tc :: _, some 0 => demarshalValue tc
  | _ :: tcs, some (i+1) => demarshalArm tcs (some i)

end
end

end InMemory

mutual

/-- A TypeCode that has been decoded, for the functions that walk it. A part that is missing
is missing, and a number that has not been filled in is zero. -/
def Decoded.typeCode : Decoded → Option CTypeCode
  | .null => none
  | .node fields subtypes discriminator =>
      some (.node
        { kind := fields.kind, length := fields.length.getD 0, name := fields.name.getD []
          repoId := fields.repoId.getD [], subnames := fields.subnames.map (·.getD [])
          sublabels := fields.sublabels, defaultIndex := fields.defaultIndex.getD 0
          digits := fields.digits.getD 0, scale := fields.scale.getD 0 }
        (Decoded.typeCodes subtypes) (Decoded.typeCode discriminator))

def Decoded.typeCodes : List Decoded → List CTypeCode
  | [] => []
  | tc :: tcs =>
      match Decoded.typeCode tc with
      | some tc => tc :: Decoded.typeCodes tcs
      | none => []

end

namespace InMemory

/-- `ORBit_demarshal_any`, in which there are no more than so many others. -/
def demarshalAny : Nat → Prog Receiving Received
  | 0 => Prog.abort
  | depth+1 => do
      let type ← onCursor decodeTypeCode
      match type.typeCode with
      -- ORBit_alloc_by_tc does not stand NULL
      | none => Prog.abort
      | some tc =>
          let value ← demarshalValue (demarshalAny depth) tc
          return .any type value

/-- `ORBit_demarshal_value`; an any takes a byte of the message at least. -/
def demarshal (tc : CTypeCode) : Prog Receiving Received := Prog.ask fun s =>
  demarshalValue (demarshalAny (s.cursor.data.length + 1)) tc

end InMemory
end ORBit2
