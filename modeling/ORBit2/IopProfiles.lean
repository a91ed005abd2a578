import ORBit2.Encapsulation
import ORBit2.RecvBuffer

/-! The profiles of an object reference and their components (iop-profiles.c), as they are
written and as they are read. -/

set_option autoImplicit false

namespace ORBit2
open Words

/-! ### Profiles in memory -/

/-- The characters of a string that has an end. -/
abbrev CString : Type := {str : List UInt8 // 0 ∉ str}

/-- What a `char *` points to; NULL is `none`. -/
abbrev Block : Type := Option (List UInt8)

def tagInternetIop : UInt32 := 0
def tagMultipleComponents : UInt32 := 1
def tagOrbitSpecific : UInt32 := 0xBADFAECA
def tagGenericIop : UInt32 := 0x4f425400

/-- The profiles that are not `IOP_UnknownProfile_info`. -/
def knownProfiles : List UInt32 :=
  [tagInternetIop, tagMultipleComponents, tagOrbitSpecific, tagGenericIop]

def tagCodeSets : UInt32 := 1
def tagCompleteObjectKey : UInt32 := 5
def tagSslSecTrans : UInt32 := 20
def tagGenericSslSecTrans : UInt32 := 0x4f425400

/-- The components that are not `IOP_UnknownComponent_info`. -/
def knownComponents : List UInt32 :=
  [tagCodeSets, tagCompleteObjectKey, tagSslSecTrans, tagGenericSslSecTrans]

/-- `CONV_FRAME_CodeSetComponent`. -/
structure CodeSetComponent where
  nativeCodeSet : UInt32
  conversionCodeSets : List UInt32
  deriving DecidableEq, Repr

/-- `IOP_Component_info` and what it begins; `σ` is the type of the strings. -/
inductive IopComponent (σ : Type) where
  | genericSslSecTrans (service : σ)
  | sslSecTrans (targetSupports targetRequires : UInt32) (port : UInt16)
  | completeObjectKey (objectKey : Option (List UInt8))
  | codeSets (forCharData forWcharData : CodeSetComponent)
  | unknown (componentType : {type : UInt32 // type ∉ knownComponents}) (data : List UInt8)
  deriving DecidableEq

/-- `IOP_Profile_info` and what it begins. -/
inductive IopProfile (σ : Type) where
  | internetIop (iiopVersion : Version) (host : σ) (port : UInt16)
      (objectKey : Option (List UInt8)) (components : List (IopComponent σ))
  | genericIop (iiopVersion : Version) (proto host service : σ) (components : List (IopComponent σ))
  | orbitSpecific (unixSockPath : σ) (ipv6Port : UInt16) (objectKey : Option (List UInt8))
  | multipleComponents (components : List (IopComponent σ))
  | unknown (profileType : {type : UInt32 // type ∉ knownProfiles}) (data : List UInt8)
  deriving DecidableEq

/-! ### Marshalling -/

section Marshal
variable (host : Endian) (key : List UInt8)

/-- `IOP_ObjectKey_marshal`. -/
def marshalObjectKey : Put := (Put.word host 4 key.length).seq (.append key)

/-- `CodeSetComponent_marshal`. -/
def CodeSetComponent.marshal (component : CodeSetComponent) : Put :=
  (Put.word host 4 component.nativeCodeSet.toNat).seq <|
  (Put.word host 4 component.conversionCodeSets.length).seq <|
  .append (component.conversionCodeSets.flatMap fun id => host.split 4 id.toNat)

/-- What `IOP_components_marshal` writes for a component. A complete object key is the one of
the object, whatever the component holds. -/
def IopComponent.marshal : IopComponent CString → Put
  | .genericSslSecTrans service =>
      (Put.word host 4 tagGenericSslSecTrans.toNat).seq (.encaps host (.string host service.1))
  | .sslSecTrans targetSupports targetRequires port =>
      (Put.word host 4 tagSslSecTrans.toNat).seq <|
      .encaps host <| (Put.align 4).seq <|
      .append (host.split 4 targetSupports.toNat ++ host.split 4 targetRequires.toNat ++
        host.split 2 port.toNat)
  | .completeObjectKey _ =>
      (Put.word host 4 tagCompleteObjectKey.toNat).seq (marshalObjectKey host key)
  | .codeSets forCharData forWcharData =>
      (Put.word host 4 tagCodeSets.toNat).seq <|
      .encaps host ((forCharData.marshal host).seq (forWcharData.marshal host))
  | .unknown componentType data =>
      (Put.word host 4 componentType.1.toNat).seq <|
      (Put.append (host.split 4 data.length)).seq (.append data)

/-- `IOP_components_marshal`. -/
def marshalComponents (components : List (IopComponent CString)) : Put :=
  (Put.word host 4 components.length).seq (.all (components.map (IopComponent.marshal host key)))

/-- `IOP_profile_marshal`. -/
def IopProfile.marshal : IopProfile CString → Put
  | .internetIop iiopVersion hostName port _ components =>
      (Put.word host 4 tagInternetIop.toNat).seq <|
      .encaps host <| (Put.append iiopVersion.ids).seq <| (Put.string host hostName.1).seq <|
      (Put.word host 2 port.toNat).seq <| (marshalObjectKey host key).seq <|
      marshalComponents host key components
  | .orbitSpecific unixSockPath ipv6Port _ =>
      (Put.word host 4 tagOrbitSpecific.toNat).seq <|
      .encaps host <| (Put.append [1, 2]).seq <| (Put.string host unixSockPath.1).seq <|
      (Put.word host 2 ipv6Port.toNat).seq (marshalObjectKey host key)
  | .genericIop iiopVersion proto hostName service components =>
      (Put.word host 4 tagGenericIop.toNat).seq <|
      .encaps host <| (Put.append iiopVersion.ids).seq <| (Put.string host proto.1).seq <|
      (Put.string host hostName.1).seq <| (Put.string host service.1).seq <|
      marshalComponents host key components
  | .multipleComponents components =>
      (Put.word host 4 tagMultipleComponents.toNat).seq <|
      .encaps host (marshalComponents host key components)
  | .unknown profileType data =>
      (Put.word host 4 profileType.1.toNat).seq (.counted host (.append data))

/-- What `ORBit_marshal_object` writes for a reference with profiles. -/
def marshalProfiles (typeId : CString) (profileList : List (IopProfile CString)) : Put :=
  (Put.string host typeId.1).seq <| (Put.word host 4 profileList.length).seq <|
  .all (profileList.map (IopProfile.marshal host key))

end Marshal

/-! ### Demarshalling -/

namespace Dec

def ulong : Dec UInt32 := do
  let n ← word 4
  return UInt32.ofNat n

def ushort : Dec UInt16 := do
  let n ← word 2
  return UInt16.ofNat n

/-- A pointer into the buffer, as what stands there. -/
def pointer : Dec (List UInt8) := fun c => .ok (c.data.drop c.cur, c)

/-- A length, and so many bytes. -/
def counted : Dec (List UInt8) := do
  let len ← alignedWord 4
  octets len

/-- A `CORBA_unsigned_short` at its own alignment. -/
def port : Dec UInt16 := do
  align 2
  need 2
  ushort

/-- The version of a profile. -/
def version : Dec Version := do
  let v ← octets 2
  match Version.ofIds v with
  | some version => return version
  | none => stop .fail

end Dec

open Dec (alignedWord align need word advance counted)

/-- `CodeSetComponent_demarshal`. The number of bytes is computed in 32 bits. -/
def demarshalCodeSet : Dec CodeSetComponent := do
  align 4
  need 8
  let nativeCodeSet ← Dec.ulong
  let sequenceLength ← word 4
  need (sequenceLength * 4 % 2^32)
  let conversionCodeSets ← Dec.ulong.times sequenceLength
  return ⟨nativeCodeSet, conversionCodeSets⟩

/-- The `switch` of `IOP_components_demarshal`. The SSL components ask the buffer around them for
the byte order. -/
def demarshalComponentOf (cid : UInt32) : Dec (IopComponent Block) := do
  if h : cid ∉ knownComponents then
    let data ← counted
    return .unknown ⟨cid, h⟩ data
  else if cid = tagCompleteObjectKey then
    let objectKey ← counted
    return .completeObjectKey (some objectKey)
  else if cid = tagGenericSslSecTrans then
    let service ← Dec.encaps false Dec.stringBlock
    return .genericSslSecTrans service
  else if cid = tagSslSecTrans then
    Dec.encaps false do
      align 4
      need 10
      let targetSupports ← Dec.ulong
      let targetRequires ← Dec.ulong
      let port ← Dec.ushort
      return .sslSecTrans targetSupports targetRequires port
  else
    Dec.encaps true do
      let forCharData ← demarshalCodeSet
      let forWcharData ← demarshalCodeSet
      return .codeSets forCharData forWcharData

/-- One round of `IOP_components_demarshal`. -/
def demarshalComponent : Dec (IopComponent Block) := do
  let cid ← alignedWord 4
  demarshalComponentOf (UInt32.ofNat cid)

/-- `IOP_components_demarshal`. -/
def demarshalComponents : Dec (List (IopComponent Block)) := do
  let len ← alignedWord 4
  demarshalComponent.times len

/-- The components of an IIOP profile. -/
def demarshalSinceVersion (version : Version) : Dec (List (IopComponent Block)) :=
  if version ≠ .v1_0 then demarshalComponents else pure []

/-- `IOP_TAG_INTERNET_IOP_demarshal`, inside its encapsulation. -/
def demarshalInternetIop : Dec (IopProfile Block) := do
  let version ← Dec.version
  let host ← Dec.stringBlock
  let port ← Dec.port
  let objectKey ← counted
  let components ← demarshalSinceVersion version
  return .internetIop version host port (some objectKey) components

/-- `IOP_TAG_GENERIC_IOP_demarshal`, inside its encapsulation. -/
def demarshalGenericIop : Dec (IopProfile Block) := do
  let version ← Dec.version
  let proto ← Dec.stringBlock
  let host ← Dec.stringBlock
  let service ← Dec.stringBlock
  let components ← demarshalComponents
  return .genericIop version proto host service components

/-- `IOP_TAG_ORBIT_SPECIFIC_demarshal`, inside its encapsulation. -/
def demarshalOrbitSpecific : Dec (IopProfile Block) := do
  need 2
  advance 2
  let unixSockPath ← Dec.stringBlock
  let ipv6Port ← Dec.port
  let objectKey ← counted
  return .orbitSpecific unixSockPath ipv6Port (some objectKey)

/-- The `switch` of `IOP_profile_demarshal`. -/
def demarshalProfileOf (p : UInt32) : Dec (IopProfile Block) := do
  if h : p ∉ knownProfiles then
    let data ← counted
    return .unknown ⟨p, h⟩ data
  else if p = tagInternetIop then Dec.encaps true demarshalInternetIop
  else if p = tagMultipleComponents then
    let components ← Dec.encaps true demarshalComponents
    return .multipleComponents components
  else if p = tagGenericIop then Dec.encaps true demarshalGenericIop
  else Dec.encaps true demarshalOrbitSpecific

/-- `IOP_profile_demarshal`. -/
def demarshalProfile : Dec (IopProfile Block) := do
  let p ← alignedWord 4
  demarshalProfileOf (UInt32.ofNat p)

/-- The type id and the profiles of a reference, or none. -/
abbrev Ior : Type := Option (List UInt8 × List (IopProfile Block))

/-- `ORBit_demarshal_IOR`. The type id is a pointer into the buffer: what stands there, from its
first character to the end of the buffer. -/
def demarshalIOR : Dec Ior := do
  let len ← alignedWord 4
  need len
  let typeId ← Dec.pointer
  advance len
  let numProfiles ← alignedWord 4
  if typeId.headD 0 = 0 ∧ numProfiles = 0 then return none
  else
    let profiles ← demarshalProfile.times numProfiles
    return some (typeId, profiles)

end ORBit2
