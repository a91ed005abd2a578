import ORBit2.Base.Outcomes
import ORBit2.IopProfiles

/-! Object references in memory (corba-object.c): how they are made of the profiles that have
been read, looked up among those that are known, compared, written, dumped and connected. -/

set_option autoImplicit false

namespace ORBit2
open Words

/-- What a function runs into. -/
inductive ObjrefFault where
  /-- a `g_assert` fails, or a check of an argument -/
  | assertion
  /-- NULL is used -/
  | missing
  /-- memory is read behind its end, a string without an end for one -/
  | overrun
  deriving DecidableEq, Repr

/-- `CORBA_Object_type`. -/
structure Reference where
  typeId : CString
  objectKey : Option (List UInt8)
  profileList : List (IopProfile Block)
  deriving DecidableEq

/-! ### Strings -/

theorem zero_not_mem_takeWhile (bytes : List UInt8) : 0 ∉ bytes.takeWhile (· ≠ 0) := by
  intro h
  have hne := List.mem_takeWhile_imp h
  simp at hne

/-- A `char *`, read to its end. -/
def readString : Block → Except ObjrefFault CString
  | none => .error .missing
  | some bytes =>
      if 0 ∈ bytes then .ok ⟨bytes.takeWhile (· ≠ 0), zero_not_mem_takeWhile bytes⟩
      else .error .overrun

/-- `!strcmp (s, t)`. -/
def equalStrings : List UInt8 → List UInt8 → Except ObjrefFault Bool
  | a :: s, b :: t => if a ≠ b then .ok false else if a = 0 then .ok true else equalStrings s t
  | _, _ => .error .overrun

def equalBlocks : Block → Block → Except ObjrefFault Bool
  | some s, some t => equalStrings s t
  | _, _ => .error .missing

/-- The components with their strings read. -/
def IopComponent.readStrings : IopComponent Block → Except ObjrefFault (IopComponent CString)
  | .genericSslSecTrans service => do
      let service ← readString service
      return .genericSslSecTrans service
  | .sslSecTrans targetSupports targetRequires port =>
      .ok (.sslSecTrans targetSupports targetRequires port)
  | .completeObjectKey objectKey => .ok (.completeObjectKey objectKey)
  | .codeSets forCharData forWcharData => .ok (.codeSets forCharData forWcharData)
  | .unknown componentType data => .ok (.unknown componentType data)

/-- The profiles with their strings read. -/
def IopProfile.readStrings : IopProfile Block → Except ObjrefFault (IopProfile CString)
  | .internetIop iiopVersion host port objectKey components => do
      let host ← readString host
      let components ← components.mapM IopComponent.readStrings
      return .internetIop iiopVersion host port objectKey components
  | .genericIop iiopVersion proto host service components => do
      let proto ← readString proto
      let host ← readString host
      let service ← readString service
      let components ← components.mapM IopComponent.readStrings
      return .genericIop iiopVersion proto host service components
  | .orbitSpecific unixSockPath ipv6Port objectKey => do
      let unixSockPath ← readString unixSockPath
      return .orbitSpecific unixSockPath ipv6Port objectKey
  | .multipleComponents components => do
      let components ← components.mapM IopComponent.readStrings
      return .multipleComponents components
  | .unknown profileType data => .ok (.unknown profileType data)

/-! ### Keys -/

/-- The key of the reference behind one more key: the first is kept, a further one is compared
with it, for a warning. -/
def nextKey : (objkey own : Option (List UInt8)) → Except ObjrefFault (Option (List UInt8))
  | none, own => .ok own
  | some objkey, some _ => .ok (some objkey)
  | some _, none => .error .missing

/-- The complete object keys in `IOP_profiles_sync_objkey`. -/
def syncComponents (objkey : Option (List UInt8)) : List (IopComponent Block) →
    Except ObjrefFault (Option (List UInt8) × List (IopComponent Block))
  | [] => .ok (objkey, [])
  | .completeObjectKey own :: components => do
      let objkey ← nextKey objkey own
      let (objkey, components) ← syncComponents objkey components
      return (objkey, .completeObjectKey none :: components)
  | component :: components => do
      let (objkey, components) ← syncComponents objkey components
      return (objkey, component :: components)

/-- One round of `IOP_profiles_sync_objkey`. -/
def syncProfile (objkey : Option (List UInt8)) : IopProfile Block →
    Except ObjrefFault (Option (List UInt8) × IopProfile Block)
  | .internetIop iiopVersion host port own components => do
      let objkey ← nextKey objkey own
      return (objkey, .internetIop iiopVersion host port none components)
  | .orbitSpecific unixSockPath ipv6Port own => do
      let objkey ← nextKey objkey own
      return (objkey, .orbitSpecific unixSockPath ipv6Port none)
  | .multipleComponents components => do
      let (objkey, components) ← syncComponents objkey components
      return (objkey, .multipleComponents components)
  | profile => .ok (objkey, profile)

/-- `IOP_profiles_sync_objkey`, with the key found so far: the key, and the profiles without. -/
def syncProfiles (objkey : Option (List UInt8)) : List (IopProfile Block) →
    Except ObjrefFault (Option (List UInt8) × List (IopProfile Block))
  | [] => .ok (objkey, [])
  | profile :: profiles => do
      let (objkey, profile) ← syncProfile objkey profile
      let (objkey, profiles) ← syncProfiles objkey profiles
      return (objkey, profile :: profiles)

/-- `IOP_profiles_sync_objkey`. -/
def profilesSyncObjkey (profiles : List (IopProfile Block)) :
    Except ObjrefFault (Option (List UInt8) × List (IopProfile Block)) :=
  syncProfiles none profiles

def IopComponent.isKey {σ : Type} : IopComponent σ → Bool
  | .completeObjectKey _ => true
  | _ => false

/-- The profiles in which `IOP_profiles_sync_objkey` looks for a key. -/
def IopProfile.carriesKey {σ : Type} : IopProfile σ → Bool
  | .internetIop _ _ _ _ _ | .orbitSpecific _ _ _ => true
  | .multipleComponents components => components.any IopComponent.isKey
  | .genericIop _ _ _ _ _ | .unknown _ _ => false

/-! ### Comparison -/

def IopProfile.isMultipleComponents : IopProfile Block → Bool
  | .multipleComponents _ => true
  | _ => false

/-- `IOP_profile_equal`. -/
def profileEqual (obj1 obj2 : Reference) : IopProfile Block → IopProfile Block →
    Except ObjrefFault Bool
  | .internetIop _ host1 port1 key1 _, .internetIop _ host2 port2 key2 _ =>
      if key1 ≠ none ∨ key2 ≠ none then .error .assertion
      else if port1 ≠ port2 then .ok false
      else equalBlocks host1 host2
  | .genericIop _ proto1 host1 service1 _, .genericIop _ proto2 host2 service2 _ =>
      if !(obj1.profileList.any IopProfile.isMultipleComponents ||
          obj2.profileList.any IopProfile.isMultipleComponents) then .ok false
      else do
        if !(← equalBlocks service1 service2) then return false
        if !(← equalBlocks host1 host2) then return false
        equalBlocks proto1 proto2
  | .orbitSpecific path1 port1 key1, .orbitSpecific path2 port2 key2 =>
      if key1 ≠ none ∨ key2 ≠ none then .error .assertion
      else if port1 ≠ port2 then .ok false
      else equalBlocks path1 path2
  | _, _ => .ok false

/-- `g_CORBA_Object_equal`. -/
def Reference.equal (obj other : Reference) : Except ObjrefFault Bool :=
  match obj.objectKey, other.objectKey with
  | some key, some otherKey =>
      if key ≠ otherKey then .ok false
      else obj.profileList.anyM fun p => other.profileList.anyM fun q => profileEqual obj other p q
  | _, _ => .error .assertion

/-! ### The table of references -/

/-- The entries that a reference is compared with, one after the other. Those in other buckets
have other keys. -/
def findEqual (obj : Reference) : List Reference → Except ObjrefFault (Option Reference)
  | [] => .ok none
  | entry :: entries => do
      if ← entry.equal obj then return some entry
      findEqual obj entries

/-- `ORBit_lookup_objref`; the table is made for the first reference. -/
def lookupObjref (objrefs : Option (List Reference)) (obj : Reference) :
    Except ObjrefFault (Option Reference) :=
  match objrefs with
  | none => .ok none
  | some objrefs =>
      if obj.profileList.isEmpty then .ok none
      -- `g_CORBA_Object_hash`
      else if obj.objectKey = none then .error .assertion
      else findEqual obj objrefs

/-- `ORBit_register_objref`, of a reference that is not in the table. -/
def registerObjref (objrefs : Option (List Reference)) (obj : Reference) :
    Except ObjrefFault (List Reference) :=
  if obj.objectKey = none then .error .assertion
  else if obj.profileList.isEmpty then .error .assertion
  else .ok (objrefs.getD [] ++ [obj])

/-- `ORBit_objref_find`. -/
def objrefFind (objrefs : Option (List Reference)) (typeId : Block)
    (profiles : List (IopProfile Block)) :
    Except ObjrefFault (Reference × Option (List Reference)) := do
  let typeId ← readString typeId
  let (objectKey, profiles) ← profilesSyncObjkey profiles
  let fakeme : Reference := ⟨typeId, objectKey, profiles⟩
  match ← lookupObjref objrefs fakeme with
  | some retval => return (retval, objrefs)
  | none =>
      let objrefs ← registerObjref objrefs fakeme
      return (fakeme, some objrefs)

/-- What `ORBit_demarshal_object` leaves: TRUE, or a reference that may be nil. -/
inductive Demarshalled where
  | failed
  | nil
  | reference (obj : Reference) (objrefs : Option (List Reference))
  deriving DecidableEq

/-- `ORBit_demarshal_object`. -/
def demarshalObject (objrefs : Option (List Reference)) (c : RecvCursor) :
    Except ObjrefFault Demarshalled :=
  match demarshalIOR c with
  | .error .fail => .ok .failed
  | .error .undefined => .error .overrun
  | .ok (none, _) => .ok .nil
  | .ok (some (typeId, profiles), _) => do
      let (obj, objrefs) ← objrefFind objrefs (some typeId) profiles
      return .reference obj objrefs

/-! ### What is done with a reference -/

/-- The profiles where the key of the reference is written. -/
def IopProfile.writesKey {σ : Type} : IopProfile σ → Bool
  | .internetIop _ _ _ _ _ | .orbitSpecific _ _ _ => true
  | .genericIop _ _ _ _ components | .multipleComponents components =>
      components.any IopComponent.isKey
  | .unknown _ _ => false

/-- `ORBit_marshal_object`, of a reference that has profiles. -/
def Reference.marshal (host : Endian) (obj : Reference) : Except ObjrefFault Put :=
  if obj.profileList.isEmpty then .error .assertion
  else do
    let profiles ← obj.profileList.mapM IopProfile.readStrings
    match obj.objectKey with
    | some key => return marshalProfiles host key obj.typeId profiles
    | none =>
        if profiles.any IopProfile.writesKey then throw .missing
        return marshalProfiles host [] obj.typeId profiles

/-- `IOP_profile_dump`. -/
def Reference.dump (obj : Reference) : IopProfile Block → Except ObjrefFault Unit
  | .internetIop _ host _ objectKey _ => do
      if objectKey ≠ none then throw .assertion
      if obj.objectKey = none then throw .missing
      let _ ← readString host
  | .genericIop _ proto host service _ => do
      let _ ← readString proto
      let _ ← readString service
      let _ ← readString host
  | .orbitSpecific unixSockPath _ objectKey => do
      if objectKey ≠ none then throw .assertion
      if obj.objectKey = none then throw .missing
      let _ ← readString unixSockPath
  | _ => .ok ()

/-- What `IOP_profile_get_info` finds: protocol, host and service. -/
def IopProfile.getInfo : IopProfile Block → Option (Block × Block × Block)
  | .internetIop _ host port _ _ =>
      some (some ("IPv4".toUTF8.toList ++ [0]), host, some ((toString port).toUTF8.toList ++ [0]))
  | .genericIop _ proto host service _ => some (proto, host, service)
  | .orbitSpecific unixSockPath _ _ =>
      if unixSockPath.any fun path => path.headD 0 ≠ 0 then
        some (some ("UNIX".toUTF8.toList ++ [0]), some [0], unixSockPath)
      else none
  | _ => none

/-- `giop_connection_initiate` for a profile, in `ORBit_object_get_connection`. -/
def initiateConnection (profile : IopProfile Block) : Except ObjrefFault Unit :=
  match profile.getInfo with
  | none => .ok ()
  | some (proto, host, service) => do
      if host = none then throw .assertion
      let _ ← readString proto
      let _ ← readString host
      let _ ← readString service

end ORBit2
