import ORBit2.ProfileMemory

/-! `ORBit_demarshal_IOR` and what it calls (iop-profiles.c), with all that these functions do on the
way: what they read, and where the buffer ends then; what they allocate and free. -/

set_option autoImplicit false

namespace ORBit2
open Words

inductive ParseEvent where
  /-- so many bytes at `cur` are read, from a buffer between these two places -/
  | read (start cur size stop : Nat)
  /-- so many bytes of elements pass for being there, where there are so many -/
  | elements (size room : Nat)
  /-- a buffer is set up for an encapsulation -/
  | encapsulation (len : Nat)
  /-- a sequence of so many code sets is announced at `cur`, in a buffer that ends at `stop` -/
  | codeSets (count cur stop : Nat)
  /-- a string is taken from the buffer -/
  | text (bytes : List UInt8)
  /-- the profile of an old ORBit begins, in this buffer -/
  | orbitSpecific (self : Chunk) (c : RecvCursor)
  | heap (e : HeapEvent)
  deriving DecidableEq

/-- The buffer that is read, and the next address. -/
structure Parsing where
  cursor : RecvCursor
  start : Nat
  next : Nat
  deriving DecidableEq

abbrev Parse (α : Type) : Type := Traced ParseEvent Parsing α

/-- `end - cur`. -/
def RecvCursor.room (c : RecvCursor) : Nat := c.data.length - c.cur

/-- `giop_recv_buffer_use_encaps`: the buffer, and the bytes that it is for. -/
structure SubBuffer where
  self : Chunk
  start : Nat
  cursor : RecvCursor

namespace Parse

/-! ### Steps -/

def heap {α : Type} (m : Traced HeapEvent Nat α) : Parse α := fun s =>
  ((m s.next).1.map fun r => (r.1, { s with next := r.2 }), (m s.next).2.map .heap)

def free (events : List HeapEvent) : Parse Unit := Traced.emits (events.map .heap)

/-- Some words of `size` bytes, behind a test that these are there; NULL or TRUE is returned where
they are not. -/
def tested {α : Type} (n size : Nat) (m : Dec α) : Parse (Option α) := fun s =>
  match (do Dec.align n; Dec.need size; m : Dec α) s.cursor with
  | .ok (a, c) =>
      (some (some a, { s with cursor := c }),
        [.read s.start (alignUp (s.cursor.base + s.cursor.cur) n - s.cursor.base) size s.cursor.data.length])
  | .error .fail => (some (none, s), [])
  | .error .undefined => (none, [])

/-- A length. -/
def length : Parse (Option Nat) := tested 4 4 (Dec.word 4)

/-- The test for `size` bytes, and these. -/
def octets (size : Nat) : Parse (Option (List UInt8)) := fun s =>
  if s.cursor.data.length < s.cursor.cur + size then (some (none, s), [])
  else
    (some (some ((s.cursor.data.drop s.cursor.cur).take size),
        { s with cursor := { s.cursor with cur := s.cursor.cur + size } }),
      [.elements size s.cursor.room, .read s.start s.cursor.cur size s.cursor.data.length])

/-- A copy of the bytes that have been read, by `g_memdup`. -/
def memdup (bytes : List UInt8) : Parse Chars := do
  let block ← heap (newBytes .glib bytes.length)
  return ⟨block, bytes⟩

/-- The test for the characters of a string, and their copy. -/
def string (len : Nat) : Parse (Option Chars) := do
  match ← octets len with
  | none => return none
  | some bytes =>
      Traced.emits [.text bytes]
      let chars ← memdup bytes
      return some chars

/-- `giop_recv_buffer_use_encaps`. -/
def useEncaps (inside : Bool) (len : Nat) : Parse SubBuffer := do
  let self ← heap (newChunk .glib)
  Traced.step fun s =>
    (⟨self, s.cursor.cur, s.cursor.encaps inside len⟩,
      { s with cursor := { s.cursor with cur := s.cursor.cur + len } },
      [.encapsulation len, .read s.cursor.cur s.cursor.cur 1 (s.cursor.cur + len)])

/-- `giop_recv_buffer_use_encaps_buf`; `inside` tells whether the new buffer is asked for the byte
order, or still the one around it. -/
def useEncapsBuf (inside : Bool) : Parse (Option SubBuffer) := do
  match ← length with
  | none => return none
  | some len =>
      let s ← Traced.get
      if s.cursor.data.length < s.cursor.cur + len then return none
      Traced.emits [.elements len s.cursor.room]
      let sub ← useEncaps inside len
      return some sub

/-- What is read from the new buffer. -/
def inside {α : Type} (sub : SubBuffer) (m : Parse α) : Parse α :=
  Traced.within (fun s => ⟨sub.cursor, sub.start, s.next⟩) (fun s t => { s with next := t.next }) m

/-- `giop_recv_buffer_unuse`. -/
def unuse (sub : SubBuffer) : Parse Unit := free (gFree (some sub.self))

/-! ### Components -/

/-- `IOP_ObjectKey_demarshal`. -/
def objectKey : Parse (Option KeyStruct) := do
  match ← length with
  | none => return none
  | some len =>
      match ← octets len with
      | none => return none
      | some octets =>
          let self ← heap (newChunk .orbit)
          let buffer ← heap (newBytes .orbit len)
          return some ⟨self, buffer, octets⟩

/-- `IOP_TAG_SSL_SEC_TRANS_demarshal`. -/
def sslSecTrans : Parse (Option ComponentInfo) := do
  match ← useEncapsBuf false with
  | none => return none
  | some sub =>
      let words ← inside sub <| tested 4 10 do
        let targetSupports ← Dec.ulong
        let targetRequires ← Dec.ulong
        let port ← Dec.ushort
        return (targetSupports, targetRequires, port)
      match words with
      | none =>
          unuse sub
          return none
      | some (targetSupports, targetRequires, port) =>
          let retval ← heap (newChunk .glib)
          unuse sub
          return some ⟨retval, .sslSecTrans targetSupports targetRequires port⟩

/-- `IOP_TAG_GENERIC_SSL_SEC_TRANS_demarshal`, up to the service. -/
def genericSslService : Parse (Option ComponentInfo) := do
  match ← length with
  | none => return none
  | some len =>
      match ← octets len with
      | none => return none
      | some bytes =>
          let retval ← heap (newChunk .glib)
          Traced.emits [.text bytes]
          let service ← memdup bytes
          return some ⟨retval, .genericSslSecTrans service⟩

/-- `IOP_TAG_GENERIC_SSL_SEC_TRANS_demarshal`. -/
def genericSslSecTrans : Parse (Option ComponentInfo) := do
  match ← useEncapsBuf false with
  | none => return none
  | some sub =>
      let retval ← inside sub genericSslService
      unuse sub
      return retval

/-- `IOP_TAG_COMPLETE_OBJECT_KEY_demarshal`. -/
def completeObjectKey : Parse (Option ComponentInfo) := do
  match ← objectKey with
  | none => return none
  | some key =>
      let retval ← heap (newChunk .glib)
      return some ⟨retval, .completeObjectKey (some key)⟩

/-- The elements of `CodeSetComponent_demarshal`. The number of bytes that the test is for is
computed in 32 bits. -/
def codeSetIds (count : Nat) : Parse (Option (List UInt32)) := fun s =>
  let announced : ParseEvent := .codeSets count s.cursor.cur s.cursor.data.length
  if s.cursor.data.length < s.cursor.cur + count * 4 % 2^32 then (some (none, s), [announced])
  else
    let events := [announced, .elements (4 * count) s.cursor.room,
      .read s.start s.cursor.cur (4 * count) s.cursor.data.length]
    match Dec.ulong.times count s.cursor with
    | .ok (ids, c) => (some (some ids, { s with cursor := c }), events)
    | .error _ => (none, events)

/-- `CodeSetComponent_demarshal`. -/
def codeSetComponent : Parse (Option CodeSetData) := do
  let words ← tested 4 8 do
    let nativeCodeSet ← Dec.ulong
    let sequenceLength ← Dec.word 4
    return (nativeCodeSet, sequenceLength)
  match words with
  | none => return none
  | some (nativeCodeSet, sequenceLength) =>
      match ← codeSetIds sequenceLength with
      | none => return none
      | some ids =>
          let buffer ← heap (newBytes .orbit sequenceLength)
          return some ⟨nativeCodeSet, buffer, ids⟩

/-- A component as `g_new0` leaves it. -/
def noCodeSets : CodeSetData := ⟨0, none, []⟩

/-- The two calls in `IOP_TAG_CODE_SETS_demarshal`: what they leave in the components, and whether
both return TRUE. -/
def codeSetPair : Parse (Bool × CodeSetData × CodeSetData) := do
  match ← codeSetComponent with
  | none => return (false, noCodeSets, noCodeSets)
  | some forCharData =>
      match ← codeSetComponent with
      | none => return (false, forCharData, noCodeSets)
      | some forWcharData => return (true, forCharData, forWcharData)

/-- `IOP_TAG_CODE_SETS_demarshal`. -/
def codeSets : Parse (Option ComponentInfo) := do
  match ← useEncapsBuf true with
  | none => return none
  | some sub =>
      let retval ← heap (newChunk .glib)
      let (both, forCharData, forWcharData) ← inside sub codeSetPair
      unuse sub
      if both then return some ⟨retval, .codeSets forCharData forWcharData⟩
      free (orbitFree forCharData.buffer)
      free (orbitFree forWcharData.buffer)
      free (gFree (some retval))
      return none

/-- `IOP_UnknownComponent_demarshal` and `IOP_UnknownProfile_demarshal`: the struct, and the data in
it. -/
def unknownData : Parse (Option (Chunk × OctetData)) := do
  match ← length with
  | none => return none
  | some len =>
      match ← octets len with
      | none => return none
      | some bytes =>
          let retval ← heap (newChunk .glib)
          let data ← memdup bytes
          return some (retval, ⟨none, false, data.block, data.bytes⟩)

/-- The `switch` of `IOP_components_demarshal`. -/
def component (cid : UInt32) : Parse (Option ComponentInfo) := do
  if h : cid ∉ knownComponents then
    match ← unknownData with
    | none => return none
    | some (retval, data) => return some ⟨retval, .unknown ⟨cid, h⟩ data⟩
  else if cid = tagCompleteObjectKey then completeObjectKey
  else if cid = tagGenericSslSecTrans then genericSslSecTrans
  else if cid = tagSslSecTrans then sslSecTrans
  else codeSets

/-- The loop of `IOP_components_demarshal`, with the components so far. -/
def componentLoop (retval : List ComponentInfo) : Nat → Parse (Option (List ComponentInfo))
  | 0 => return some retval
  | n+1 => do
      match ← length with
      | none =>
          free (componentsFree retval)
          return none
      | some cid =>
          match ← component (UInt32.ofNat cid) with
          | none =>
              free (componentsFree retval)
              return none
          | some c => componentLoop (retval ++ [c]) n

/-- `IOP_components_demarshal`; the list stays empty where it returns TRUE. -/
def components : Parse (Option (List ComponentInfo)) := do
  match ← length with
  | none => return none
  | some len => componentLoop [] len

/-! ### Profiles -/

/-- The version of a profile; an unknown one is rejected. -/
def version : Parse (Option Version) := do
  match ← tested 1 2 (Dec.octets 2) with
  | none => return none
  | some v => return Version.ofIds v

/-- A string behind its length. -/
def countedString : Parse (Option Chars) := do
  match ← length with
  | none => return none
  | some len => string len

/-- The label `errout`: what has been assigned is freed, the rest is zero. -/
def errout {α : Type} (retval : ProfileInfo) : Parse (Option α) := do
  free retval.free
  return none

/-- A string that is still NULL. -/
def noChars : Chars := ⟨none, []⟩

/-- `IOP_TAG_INTERNET_IOP_demarshal`, behind the host. -/
def internetIopRest (version : Version) (retval : Chunk) (host : Chars) : Parse (Option ProfileInfo) := do
  match ← tested 2 2 Dec.ushort with
  | none => errout ⟨retval, .internetIop version host 0 none []⟩
  | some port =>
      match ← objectKey with
      | none => errout ⟨retval, .internetIop version host port none []⟩
      | some key =>
          if version = .v1_0 then return some ⟨retval, .internetIop version host port (some key) []⟩
          match ← components with
          | none => errout ⟨retval, .internetIop version host port (some key) []⟩
          | some components =>
              return some ⟨retval, .internetIop version host port (some key) components⟩

/-- `IOP_TAG_INTERNET_IOP_demarshal`, inside its encapsulation. -/
def internetIopBody : Parse (Option ProfileInfo) := do
  match ← version with
  | none => return none
  | some version =>
      match ← length with
      | none => return none
      | some len =>
          let retval ← heap (newChunk .glib)
          match ← string len with
          | none => errout ⟨retval, .internetIop version noChars 0 none []⟩
          | some host => internetIopRest version retval host

/-- `IOP_TAG_GENERIC_IOP_demarshal`, behind the protocol. -/
def genericIopRest (version : Version) (retval : Chunk) (proto : Chars) : Parse (Option ProfileInfo) := do
  match ← countedString with
  | none => errout ⟨retval, .genericIop version proto noChars noChars []⟩
  | some host =>
      match ← countedString with
      | none => errout ⟨retval, .genericIop version proto host noChars []⟩
      | some service =>
          match ← components with
          | none => errout ⟨retval, .genericIop version proto host service []⟩
          | some components => return some ⟨retval, .genericIop version proto host service components⟩

/-- `IOP_TAG_GENERIC_IOP_demarshal`, inside its encapsulation. -/
def genericIopBody : Parse (Option ProfileInfo) := do
  match ← version with
  | none => return none
  | some version =>
      match ← length with
      | none => return none
      | some len =>
          let retval ← heap (newChunk .glib)
          match ← string len with
          | none => errout ⟨retval, .genericIop version noChars noChars noChars []⟩
          | some proto => genericIopRest version retval proto

/-- `IOP_TAG_MULTIPLE_COMPONENTS_demarshal`, inside its encapsulation. -/
def multipleComponentsBody : Parse (Option ProfileInfo) := do
  match ← components with
  | none => return none
  | some components =>
      let retval ← heap (newChunk .glib)
      return some ⟨retval, .multipleComponents components⟩

/-- A profile in an encapsulation that is always given back. -/
def enclosed (body : Parse (Option ProfileInfo)) : Parse (Option ProfileInfo) := do
  match ← useEncapsBuf true with
  | none => return none
  | some sub =>
      let retval ← inside sub body
      unuse sub
      return retval

/-- The ways out of `IOP_TAG_ORBIT_SPECIFIC_demarshal`. -/
inductive Exit where
  /-- `return NULL` -/
  | return
  | errout
  | done (retval : ProfileInfo)

/-- `IOP_TAG_ORBIT_SPECIFIC_demarshal`, behind the path. Nothing has been assigned to `object_key`
where there is no port. -/
def orbitSpecificRest (retval : Chunk) (path : Chars) : Parse Exit := do
  match ← tested 2 2 Dec.ushort with
  | none =>
      free (.freeUnset :: gFree path.block ++ gFree (some retval))
      return .errout
  | some port =>
      match ← objectKey with
      | none =>
          free (gFree path.block ++ gFree (some retval))
          return .errout
      | some key => return .done ⟨retval, .orbitSpecific path port (some key)⟩

/-- `IOP_TAG_ORBIT_SPECIFIC_demarshal`, inside its encapsulation. -/
def orbitSpecificBody : Parse Exit := do
  match ← tested 1 2 (Dec.octets 2) with
  | none => return .return
  | some _ =>
      match ← length with
      | none => return .return
      | some len =>
          match ← octets len with
          | none => return .errout
          | some bytes =>
              let retval ← heap (newChunk .glib)
              Traced.emits [.text bytes]
              let path ← memdup bytes
              orbitSpecificRest retval path

/-- `IOP_TAG_ORBIT_SPECIFIC_demarshal`. -/
def orbitSpecific : Parse (Option ProfileInfo) := do
  match ← useEncapsBuf true with
  | none => return none
  | some sub =>
      Traced.emits [.orbitSpecific sub.self sub.cursor]
      match ← inside sub orbitSpecificBody with
      | .return => return none
      | .errout =>
          unuse sub
          return none
      | .done retval =>
          unuse sub
          return some retval

/-- The `switch` of `IOP_profile_demarshal`. -/
def profileOf (p : UInt32) : Parse (Option ProfileInfo) := do
  if h : p ∉ knownProfiles then
    match ← unknownData with
    | none => return none
    | some (retval, data) => return some ⟨retval, .unknown ⟨p, h⟩ data⟩
  else if p = tagInternetIop then enclosed internetIopBody
  else if p = tagMultipleComponents then enclosed multipleComponentsBody
  else if p = tagGenericIop then enclosed genericIopBody
  else orbitSpecific

/-- `IOP_profile_demarshal`. -/
def profile : Parse (Option ProfileInfo) := do
  match ← length with
  | none => return none
  | some p => profileOf (UInt32.ofNat p)

/-- The loop of `ORBit_demarshal_IOR`, with the profiles so far. -/
def profileLoop (profiles : List ProfileInfo) : Nat → Parse (Option (List ProfileInfo))
  | 0 => return some profiles
  | n+1 => do
      match ← profile with
      | none =>
          free (deleteProfiles profiles)
          return none
      | some p => profileLoop (profiles ++ [p]) n

end Parse

/-! ### References -/

/-- The type id that is returned: the bytes from its first one to the end of the buffer, and how many
of them have been announced. -/
structure TypeIdPointer where
  chars : List UInt8
  len : Nat
  deriving DecidableEq

/-- What `ORBit_demarshal_IOR` returns, and what it assigns to `*ret_type_id` and `*ret_profiles`. -/
structure IorReturn where
  failure : Bool
  assigned : Option (TypeIdPointer × List ProfileInfo)
  deriving DecidableEq

namespace Parse

/-- `ORBit_demarshal_IOR`, behind the length of the type id. -/
def iorRest (len : Nat) : Parse IorReturn := do
  let s ← Traced.get
  if s.cursor.data.length < s.cursor.cur + len then return ⟨true, none⟩
  Traced.emits [.elements len s.cursor.room]
  let typeId := s.cursor.data.drop s.cursor.cur
  Traced.modify fun s => { s with cursor := { s.cursor with cur := s.cursor.cur + len } }
  match ← length with
  | none => return ⟨true, none⟩
  | some numProfiles =>
      Traced.emits [.read s.start s.cursor.cur 1 s.cursor.data.length]
      if typeId.headD 0 = 0 ∧ numProfiles = 0 then return ⟨false, none⟩
      match ← profileLoop [] numProfiles with
      | none => return ⟨true, none⟩
      | some profiles => return ⟨false, some (⟨typeId, len⟩, profiles)⟩

/-- `ORBit_demarshal_IOR`. -/
def ior : Parse IorReturn := do
  match ← length with
  | none => return ⟨true, none⟩
  | some len => iorRest len

end Parse
end ORBit2
