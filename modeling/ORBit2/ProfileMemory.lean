import ORBit2.Base.Tracing
import ORBit2.IopProfiles

/-! Profiles and components as structs in memory (iop-profiles.h), the blocks that they are made of,
and how they are freed. -/

set_option autoImplicit false

namespace ORBit2

/-! ### Blocks -/

/-- Who makes a block, and who is asked to free it: `g_malloc` and `g_free`, or `ORBit_alloc_…` and
`ORBit_free`. -/
inductive Allocator where
  | glib
  | orbit
  deriving DecidableEq, Repr

/-- A pointer to a block. -/
structure Chunk where
  address : Nat
  allocator : Allocator
  deriving DecidableEq, Repr

inductive HeapEvent where
  | alloc (c : Chunk)
  | free (c : Chunk)
  /-- a field is freed that has never been assigned -/
  | freeUnset
  deriving DecidableEq, Repr

def gFree (p : Option Chunk) : List HeapEvent := p.toList.map fun c => .free ⟨c.address, .glib⟩

/-- `ORBit_free` of a block without pointers. -/
def orbitFree (p : Option Chunk) : List HeapEvent := p.toList.map fun c => .free ⟨c.address, .orbit⟩

/-- The next address is given out, and not again. -/
def newChunk (allocator : Allocator) : Traced HeapEvent Nat Chunk :=
  Traced.step fun next => (⟨next, allocator⟩, next + 1, [.alloc ⟨next, allocator⟩])

/-- No block is made for no bytes. -/
def newBytes (allocator : Allocator) (size : Nat) : Traced HeapEvent Nat (Option Chunk) :=
  if size = 0 then pure none
  else do
    let c ← newChunk allocator
    return some c

/-! ### Structs -/

/-- A `gchar *`, and the bytes that it points to. -/
structure Chars where
  block : Option Chunk
  bytes : List UInt8
  deriving DecidableEq, Repr

/-- `ORBit_ObjectKey`. -/
structure KeyStruct where
  self : Chunk
  buffer : Option Chunk
  octets : List UInt8
  deriving DecidableEq, Repr

/-- The `CORBA_sequence_CORBA_octet` in a struct; `maximum` may not have been assigned. -/
structure OctetData where
  maximum : Option Nat
  release : Bool
  buffer : Option Chunk
  octets : List UInt8
  deriving DecidableEq, Repr

/-- `CONV_FRAME_CodeSetComponent`. -/
structure CodeSetData where
  nativeCodeSet : UInt32
  buffer : Option Chunk
  conversionCodeSets : List UInt32
  deriving DecidableEq, Repr

/-- What follows the `component_type`. -/
inductive ComponentFields where
  | genericSslSecTrans (service : Chars)
  | sslSecTrans (targetSupports targetRequires : UInt32) (port : UInt16)
  | completeObjectKey (objectKey : Option KeyStruct)
  | codeSets (forCharData forWcharData : CodeSetData)
  | unknown (componentType : {type : UInt32 // type ∉ knownComponents}) (data : OctetData)
  deriving DecidableEq

/-- `IOP_Component_info *`. -/
structure ComponentInfo where
  self : Chunk
  fields : ComponentFields
  deriving DecidableEq

/-- What follows the `profile_type`. -/
inductive ProfileFields where
  | internetIop (iiopVersion : Version) (host : Chars) (port : UInt16)
      (objectKey : Option KeyStruct) (components : List ComponentInfo)
  | genericIop (iiopVersion : Version) (proto host service : Chars) (components : List ComponentInfo)
  | orbitSpecific (unixSockPath : Chars) (ipv6Port : UInt16) (objectKey : Option KeyStruct)
  | multipleComponents (components : List ComponentInfo)
  | unknown (profileType : {type : UInt32 // type ∉ knownProfiles}) (data : OctetData)
  deriving DecidableEq

/-- `IOP_Profile_info *`. -/
structure ProfileInfo where
  self : Chunk
  fields : ProfileFields
  deriving DecidableEq

/-! ### What they stand for -/

def Chars.text (chars : Chars) : Block := chars.block.map fun _ => chars.bytes

def CodeSetData.value (data : CodeSetData) : CodeSetComponent :=
  ⟨data.nativeCodeSet, data.conversionCodeSets⟩

def ComponentFields.value : ComponentFields → IopComponent Block
  | .genericSslSecTrans service => .genericSslSecTrans service.text
  | .sslSecTrans targetSupports targetRequires port => .sslSecTrans targetSupports targetRequires port
  | .completeObjectKey objectKey => .completeObjectKey (objectKey.map KeyStruct.octets)
  | .codeSets forCharData forWcharData => .codeSets forCharData.value forWcharData.value
  | .unknown componentType data => .unknown componentType data.octets

def ComponentInfo.value (c : ComponentInfo) : IopComponent Block := c.fields.value

def ProfileFields.value : ProfileFields → IopProfile Block
  | .internetIop iiopVersion host port objectKey components =>
      .internetIop iiopVersion host.text port (objectKey.map KeyStruct.octets)
        (components.map ComponentInfo.value)
  | .genericIop iiopVersion proto host service components =>
      .genericIop iiopVersion proto.text host.text service.text (components.map ComponentInfo.value)
  | .orbitSpecific unixSockPath ipv6Port objectKey =>
      .orbitSpecific unixSockPath.text ipv6Port (objectKey.map KeyStruct.octets)
  | .multipleComponents components => .multipleComponents (components.map ComponentInfo.value)
  | .unknown profileType data => .unknown profileType data.octets

def ProfileInfo.value (p : ProfileInfo) : IopProfile Block := p.fields.value

/-! ### What they are made of -/

def KeyStruct.chunks (key : KeyStruct) : List Chunk := key.self :: key.buffer.toList

def keyChunks (key : Option KeyStruct) : List Chunk := key.toList.flatMap KeyStruct.chunks

def ComponentFields.chunks : ComponentFields → List Chunk
  | .genericSslSecTrans service => service.block.toList
  | .sslSecTrans _ _ _ => []
  | .completeObjectKey objectKey => keyChunks objectKey
  | .codeSets forCharData forWcharData => forCharData.buffer.toList ++ forWcharData.buffer.toList
  | .unknown _ data => data.buffer.toList

def ComponentInfo.chunks (c : ComponentInfo) : List Chunk := c.fields.chunks ++ [c.self]

def componentsChunks (components : List ComponentInfo) : List Chunk :=
  components.flatMap ComponentInfo.chunks

def ProfileFields.chunks : ProfileFields → List Chunk
  | .internetIop _ host _ objectKey components =>
      componentsChunks components ++ host.block.toList ++ keyChunks objectKey
  | .genericIop _ proto host service components =>
      componentsChunks components ++ proto.block.toList ++ host.block.toList ++ service.block.toList
  | .orbitSpecific unixSockPath _ objectKey => unixSockPath.block.toList ++ keyChunks objectKey
  | .multipleComponents components => componentsChunks components
  | .unknown _ data => data.buffer.toList

def ProfileInfo.chunks (p : ProfileInfo) : List Chunk := p.fields.chunks ++ [p.self]

def profilesChunks (profiles : List ProfileInfo) : List Chunk := profiles.flatMap ProfileInfo.chunks

/-! ### How they are freed -/

/-- `ORBit_free` of an object key, whose buffer is its own. -/
def keyFree (key : Option KeyStruct) : List HeapEvent :=
  key.toList.flatMap fun key => orbitFree key.buffer ++ orbitFree (some key.self)

/-- The `switch` of `IOP_component_free`. -/
def ComponentFields.free : ComponentFields → List HeapEvent
  | .genericSslSecTrans service => gFree service.block
  | .sslSecTrans _ _ _ => []
  | .completeObjectKey objectKey => keyFree objectKey
  | .codeSets forCharData forWcharData => orbitFree forCharData.buffer ++ orbitFree forWcharData.buffer
  | .unknown _ data => gFree data.buffer

/-- `IOP_component_free`. -/
def ComponentInfo.free (c : ComponentInfo) : List HeapEvent := c.fields.free ++ gFree (some c.self)

/-- `IOP_components_free`. -/
def componentsFree (components : List ComponentInfo) : List HeapEvent :=
  components.flatMap ComponentInfo.free

/-- The `switch` of `IOP_profile_free`. -/
def ProfileFields.free : ProfileFields → List HeapEvent
  | .internetIop _ host _ objectKey components =>
      componentsFree components ++ gFree host.block ++ keyFree objectKey
  | .genericIop _ proto host service components =>
      componentsFree components ++ gFree proto.block ++ gFree host.block ++ gFree service.block
  | .orbitSpecific unixSockPath _ objectKey => gFree unixSockPath.block ++ keyFree objectKey
  | .multipleComponents components => componentsFree components
  | .unknown _ data => gFree data.buffer

/-- `IOP_profile_free`. -/
def ProfileInfo.free (p : ProfileInfo) : List HeapEvent := p.fields.free ++ gFree (some p.self)

/-- `IOP_delete_profiles`, of profiles that are not those of the ORB. -/
def deleteProfiles (profiles : List ProfileInfo) : List HeapEvent := profiles.flatMap ProfileInfo.free

/-! ### Blocks that are held -/

/-- How many more times a block has been allocated than freed. -/
def HeapEvent.effect (c : Chunk) : HeapEvent → Int
  | .alloc c' => if c' = c then 1 else 0
  | .free c' => if c' = c then -1 else 0
  | .freeUnset => 0

def heapTally (c : Chunk) (log : List HeapEvent) : Int := (log.map (HeapEvent.effect c)).sum

section Tally
variable (c : Chunk)

@[simp] theorem heapTally_nil : heapTally c [] = 0 := rfl

@[simp] theorem heapTally_cons (e : HeapEvent) (log : List HeapEvent) :
    heapTally c (e :: log) = e.effect c + heapTally c log := by
  simp [heapTally]

@[simp] theorem heapTally_append (log rest : List HeapEvent) :
    heapTally c (log ++ rest) = heapTally c log + heapTally c rest := by
  simp [heapTally]

/-- A pointer that the right function is asked to free. -/
def MadeBy (allocator : Allocator) (p : Option Chunk) : Prop := ∀ c ∈ p, c.allocator = allocator

theorem count_singleton (c' : Chunk) : (([c'] : List Chunk).count c : Int) = if c' = c then 1 else 0 := by
  by_cases h : c' = c
  · simp [h]
  · simp [h]

theorem heapTally_gFree {p : Option Chunk} (h : MadeBy .glib p) :
    heapTally c (gFree p) = -p.toList.count c := by
  cases p with
  | none => rfl
  | some c' =>
    have hc' : (⟨c'.address, .glib⟩ : Chunk) = c' := by rw [← h c' rfl]
    rw [Option.toList_some, count_singleton, gFree]
    simp only [Option.toList_some, List.map_cons, List.map_nil, hc', heapTally_cons, heapTally_nil,
      HeapEvent.effect, add_zero]
    split <;> rfl

theorem heapTally_orbitFree {p : Option Chunk} (h : MadeBy .orbit p) :
    heapTally c (orbitFree p) = -p.toList.count c := by
  cases p with
  | none => rfl
  | some c' =>
    have hc' : (⟨c'.address, .orbit⟩ : Chunk) = c' := by rw [← h c' rfl]
    rw [Option.toList_some, count_singleton, orbitFree]
    simp only [Option.toList_some, List.map_cons, List.map_nil, hc', heapTally_cons, heapTally_nil,
      HeapEvent.effect, add_zero]
    split <;> rfl

end Tally

/-! ### Calls that only free -/

def Frees (events : List HeapEvent) : Prop := ∀ e ∈ events, ∃ c, e = .free c

namespace Frees

theorem nothing : Frees [] := List.forall_mem_nil _

theorem append {events rest : List HeapEvent} (h : Frees events) (h' : Frees rest) :
    Frees (events ++ rest) := by
  rw [Frees, List.forall_mem_append]
  exact ⟨h, h'⟩

theorem flatMap {α : Type} {free : α → List HeapEvent} (h : ∀ a, Frees (free a)) (as : List α) :
    Frees (as.flatMap free) := by
  rw [Frees, List.forall_mem_flatMap]
  exact fun a _ => h a

theorem gFree (p : Option Chunk) : Frees (gFree p) := by
  rw [Frees, ORBit2.gFree, List.forall_mem_map]
  exact fun c _ => ⟨_, rfl⟩

theorem orbitFree (p : Option Chunk) : Frees (orbitFree p) := by
  rw [Frees, ORBit2.orbitFree, List.forall_mem_map]
  exact fun c _ => ⟨_, rfl⟩

theorem keyFree (key : Option KeyStruct) : Frees (keyFree key) :=
  flatMap (fun _ => (orbitFree _).append (orbitFree _)) _

theorem component (c : ComponentInfo) : Frees c.free := by
  refine append ?_ (gFree _)
  cases c.fields with
  | genericSslSecTrans service => exact gFree _
  | sslSecTrans targetSupports targetRequires port => exact nothing
  | completeObjectKey objectKey => exact keyFree _
  | codeSets forCharData forWcharData => exact (orbitFree _).append (orbitFree _)
  | unknown componentType data => exact gFree _

theorem components (cs : List ComponentInfo) : Frees (componentsFree cs) := flatMap component cs

theorem profile (p : ProfileInfo) : Frees p.free := by
  refine append ?_ (gFree _)
  cases p.fields with
  | internetIop iiopVersion host port objectKey cs =>
    exact ((components cs).append (gFree _)).append (keyFree _)
  | genericIop iiopVersion proto host service cs =>
    exact (((components cs).append (gFree _)).append (gFree _)).append (gFree _)
  | orbitSpecific unixSockPath ipv6Port objectKey => exact (gFree _).append (keyFree _)
  | multipleComponents cs => exact components cs
  | unknown profileType data => exact gFree _

theorem profiles (ps : List ProfileInfo) : Frees (deleteProfiles ps) := flatMap profile ps

end Frees

/-! ### Structs that are freed as they have been made -/

def KeyStruct.Own (key : KeyStruct) : Prop := key.self.allocator = .orbit ∧ MadeBy .orbit key.buffer

def KeyOwn (key : Option KeyStruct) : Prop := ∀ k ∈ key, k.Own

def ComponentFields.Own : ComponentFields → Prop
  | .genericSslSecTrans service => MadeBy .glib service.block
  | .sslSecTrans _ _ _ => True
  | .completeObjectKey objectKey => KeyOwn objectKey
  | .codeSets forCharData forWcharData =>
      MadeBy .orbit forCharData.buffer ∧ MadeBy .orbit forWcharData.buffer
  | .unknown _ data => MadeBy .glib data.buffer

def ComponentInfo.Own (c : ComponentInfo) : Prop := c.self.allocator = .glib ∧ c.fields.Own

def ProfileFields.Own : ProfileFields → Prop
  | .internetIop _ host _ objectKey components =>
      (∀ c ∈ components, c.Own) ∧ MadeBy .glib host.block ∧ KeyOwn objectKey
  | .genericIop _ proto host service components =>
      (∀ c ∈ components, c.Own) ∧ MadeBy .glib proto.block ∧ MadeBy .glib host.block ∧
        MadeBy .glib service.block
  | .orbitSpecific unixSockPath _ objectKey => MadeBy .glib unixSockPath.block ∧ KeyOwn objectKey
  | .multipleComponents components => ∀ c ∈ components, c.Own
  | .unknown _ data => MadeBy .glib data.buffer

def ProfileInfo.Own (p : ProfileInfo) : Prop := p.self.allocator = .glib ∧ p.fields.Own

section Frees
variable (c : Chunk)

theorem madeBy_some {allocator : Allocator} {c' : Chunk} : MadeBy allocator (some c') ↔
    c'.allocator = allocator := by
  simp [MadeBy]

theorem heapTally_flatMap {α : Type} {free : α → List HeapEvent} {chunks : α → List Chunk} {as : List α}
    (h : ∀ a ∈ as, heapTally c (free a) = -(chunks a).count c) :
    heapTally c (as.flatMap free) = -(as.flatMap chunks).count c := by
  induction as with
  | nil => rfl
  | cons a as ih =>
    have ha := h a List.mem_cons_self
    have has := ih fun a ha => h a (List.mem_cons_of_mem _ ha)
    simp only [List.flatMap_cons, heapTally_append, List.count_append, ha, has]
    omega

theorem heapTally_keyFree {key : Option KeyStruct} (h : KeyOwn key) :
    heapTally c (keyFree key) = -(keyChunks key).count c := by
  refine heapTally_flatMap c fun k hk => ?_
  obtain ⟨hself, hbuffer⟩ := h k (Option.mem_toList.mp hk)
  have hself := heapTally_orbitFree c (madeBy_some.mpr hself)
  rw [heapTally_append, heapTally_orbitFree c hbuffer, hself, KeyStruct.chunks, List.count_cons,
    Option.toList_some, count_singleton]
  simp only [beq_iff_eq, Nat.cast_add, Nat.cast_ite, Nat.cast_one, Nat.cast_zero]
  omega

theorem ComponentFields.heapTally_free {fields : ComponentFields} (h : fields.Own) :
    heapTally c fields.free = -fields.chunks.count c := by
  cases fields with
  | genericSslSecTrans service => exact heapTally_gFree c h
  | sslSecTrans targetSupports targetRequires port => rfl
  | completeObjectKey objectKey => exact heapTally_keyFree c h
  | codeSets forCharData forWcharData =>
    rw [ComponentFields.free, ComponentFields.chunks, heapTally_append, heapTally_orbitFree c h.1,
      heapTally_orbitFree c h.2, List.count_append]
    omega
  | unknown componentType data => exact heapTally_gFree c h

theorem ComponentInfo.heapTally_free {info : ComponentInfo} (h : info.Own) :
    heapTally c info.free = -info.chunks.count c := by
  have hself := heapTally_gFree c (madeBy_some.mpr h.1)
  rw [ComponentInfo.free, ComponentInfo.chunks, heapTally_append, ComponentFields.heapTally_free c h.2,
    hself, List.count_append, Option.toList_some]
  omega

theorem heapTally_componentsFree {components : List ComponentInfo} (h : ∀ c ∈ components, c.Own) :
    heapTally c (componentsFree components) = -(componentsChunks components).count c :=
  heapTally_flatMap c fun info hinfo => info.heapTally_free c (h info hinfo)

theorem ProfileFields.heapTally_free {fields : ProfileFields} (h : fields.Own) :
    heapTally c fields.free = -fields.chunks.count c := by
  cases fields with
  | internetIop iiopVersion host port objectKey components =>
    obtain ⟨hcomponents, hhost, hkey⟩ := h
    rw [ProfileFields.free, ProfileFields.chunks]
    simp only [heapTally_append, heapTally_componentsFree c hcomponents, heapTally_gFree c hhost,
      heapTally_keyFree c hkey, List.count_append]
    omega
  | genericIop iiopVersion proto host service components =>
    obtain ⟨hcomponents, hproto, hhost, hservice⟩ := h
    rw [ProfileFields.free, ProfileFields.chunks]
    simp only [heapTally_append, heapTally_componentsFree c hcomponents, heapTally_gFree c hproto,
      heapTally_gFree c hhost, heapTally_gFree c hservice, List.count_append]
    omega
  | orbitSpecific unixSockPath ipv6Port objectKey =>
    rw [ProfileFields.free, ProfileFields.chunks, heapTally_append, heapTally_gFree c h.1,
      heapTally_keyFree c h.2, List.count_append]
    omega
  | multipleComponents components => exact heapTally_componentsFree c h
  | unknown profileType data => exact heapTally_gFree c h

/-- What is freed is what there is, each block by the one that has made it. -/
theorem ProfileInfo.heapTally_free {info : ProfileInfo} (h : info.Own) :
    heapTally c info.free = -info.chunks.count c := by
  have hself := heapTally_gFree c (madeBy_some.mpr h.1)
  rw [ProfileInfo.free, ProfileInfo.chunks, heapTally_append, ProfileFields.heapTally_free c h.2, hself,
    List.count_append, Option.toList_some]
  omega

theorem heapTally_deleteProfiles {profiles : List ProfileInfo} (h : ∀ p ∈ profiles, p.Own) :
    heapTally c (deleteProfiles profiles) = -(profilesChunks profiles).count c :=
  heapTally_flatMap c fun info hinfo => info.heapTally_free c (h info hinfo)

end Frees
end ORBit2
