import ORBit2.HostileReferences
import ORBit2.ProfileMemory

/-! `IOP_profiles_copy` and what it calls (iop-profiles.c): what the copies hold, and how they are
freed. -/

set_option autoImplicit false

namespace ORBit2
open Words

/-! ### Copies -/

/-- The bytes of a string and its zero. -/
def untilZero : List UInt8 → List UInt8
  | [] => []
  | b :: bytes => if b = 0 then [0] else b :: untilZero bytes

section Until
variable (bytes : List UInt8)

theorem untilZero_untilZero : untilZero (untilZero bytes) = untilZero bytes := by
  induction bytes with
  | nil => rfl
  | cons b bytes ih =>
    rw [untilZero]
    split
    · rfl
    · rw [untilZero, if_neg ‹_›, ih]

theorem zero_mem_untilZero : 0 ∈ untilZero bytes ↔ 0 ∈ bytes := by
  induction bytes with
  | nil => rfl
  | cons b bytes ih =>
    rw [untilZero]
    split
    · rename_i hb
      simp [hb]
    · rw [List.mem_cons, List.mem_cons, ih]

theorem takeWhile_untilZero : (untilZero bytes).takeWhile (· ≠ 0) = bytes.takeWhile (· ≠ 0) := by
  induction bytes with
  | nil => rfl
  | cons b bytes ih =>
    rw [untilZero]
    split
    · rename_i hb
      simp [hb]
    · rename_i hb
      rw [List.takeWhile_cons_of_pos (by simpa using hb), List.takeWhile_cons_of_pos (by simpa using hb), ih]

end Until

/-- `g_strdup`. -/
def gStrdup (s : Chars) : Traced HeapEvent Nat Chars :=
  match s.block with
  | none => pure ⟨none, []⟩
  | some _ =>
      if 0 ∈ s.bytes then do
        let block ← newChunk .glib
        return ⟨some block, untilZero s.bytes⟩
      else Traced.stop

/-- `IOP_ObjectKey_copy`. -/
def objectKeyCopy : Option KeyStruct → Traced HeapEvent Nat (Option KeyStruct)
  | none => return none
  | some src => do
      let self ← newChunk .orbit
      let buffer ← newBytes .orbit src.octets.length
      return some ⟨self, buffer, src.octets⟩

/-- `ORBit_copy_value_core`, for `TC_CORBA_sequence_CORBA_octet`. -/
def OctetData.copy (src : OctetData) : Traced HeapEvent Nat OctetData := do
  let buffer ← newBytes .orbit src.octets.length
  return ⟨some src.octets.length, true, buffer, src.octets⟩

/-- The members of a struct from `g_new0`. -/
def blankCodeSets : CodeSetData := ⟨0, none, []⟩

/-- The functions that `IOP_component_copy` chooses from. -/
def ComponentFields.copy : ComponentFields → Traced HeapEvent Nat ComponentFields
  | .genericSslSecTrans service => do
      let service ← gStrdup service
      return .genericSslSecTrans service
  | .sslSecTrans targetSupports targetRequires port =>
      return .sslSecTrans targetSupports targetRequires port
  | .completeObjectKey objectKey => do
      let objectKey ← objectKeyCopy objectKey
      return .completeObjectKey objectKey
  -- no-op
  | .codeSets _ _ => return .codeSets blankCodeSets blankCodeSets
  | .unknown componentType data => do
      let data ← data.copy
      return .unknown componentType data

/-- `IOP_component_copy`. -/
def ComponentInfo.copy (src : ComponentInfo) : Traced HeapEvent Nat ComponentInfo := do
  let ret ← newChunk .glib
  let fields ← src.fields.copy
  return ⟨ret, fields⟩

/-- A list is copied from its first element on, each in front of those before it. -/
def copyAll {α : Type} (copy : α → Traced HeapEvent Nat α) (ret : List α) :
    List α → Traced HeapEvent Nat (List α)
  | [] => return ret
  | a :: as => do
      let a ← copy a
      copyAll copy (a :: ret) as

/-- `IOP_components_copy`. -/
def componentsCopy (components : List ComponentInfo) : Traced HeapEvent Nat (List ComponentInfo) :=
  copyAll ComponentInfo.copy [] components

/-- The functions that `IOP_profile_copy` chooses from. -/
def ProfileFields.copy : ProfileFields → Traced HeapEvent Nat ProfileFields
  | .internetIop iiopVersion host port objectKey components => do
      let host ← gStrdup host
      let objectKey ← objectKeyCopy objectKey
      let components ← componentsCopy components
      return .internetIop iiopVersion host port objectKey components
  | .genericIop iiopVersion proto host service components => do
      let proto ← gStrdup proto
      let host ← gStrdup host
      let service ← gStrdup service
      let components ← componentsCopy components
      return .genericIop iiopVersion proto host service components
  | .orbitSpecific unixSockPath ipv6Port objectKey => do
      let unixSockPath ← gStrdup unixSockPath
      let objectKey ← objectKeyCopy objectKey
      return .orbitSpecific unixSockPath ipv6Port objectKey
  | .multipleComponents components => do
      let components ← componentsCopy components
      return .multipleComponents components
  | .unknown profileType data => do
      let data ← data.copy
      return .unknown profileType data

/-- `IOP_profile_copy`. -/
def ProfileInfo.copy (src : ProfileInfo) : Traced HeapEvent Nat ProfileInfo := do
  let ret ← newChunk .glib
  let fields ← src.fields.copy
  return ⟨ret, fields⟩

/-- `IOP_profiles_copy`. -/
def profilesCopy (profileList : List ProfileInfo) : Traced HeapEvent Nat (List ProfileInfo) :=
  copyAll ProfileInfo.copy [] profileList

/-! ### Contents -/

/-- A block wherever it lies. -/
def anywhere : Chunk := ⟨0, .glib⟩

def Chars.bare (s : Chars) : Chars :=
  match s.block with
  | none => ⟨none, []⟩
  | some _ => ⟨some anywhere, untilZero s.bytes⟩

def KeyStruct.bare (key : KeyStruct) : KeyStruct := ⟨anywhere, none, key.octets⟩

def OctetData.bare (data : OctetData) : OctetData := { data with buffer := none }

def CodeSetData.bare (data : CodeSetData) : CodeSetData := { data with buffer := none }

def ComponentFields.bare : ComponentFields → ComponentFields
  | .genericSslSecTrans service => .genericSslSecTrans service.bare
  | .sslSecTrans targetSupports targetRequires port => .sslSecTrans targetSupports targetRequires port
  | .completeObjectKey objectKey => .completeObjectKey (objectKey.map KeyStruct.bare)
  | .codeSets forCharData forWcharData => .codeSets forCharData.bare forWcharData.bare
  | .unknown componentType data => .unknown componentType data.bare

def ComponentInfo.bare (c : ComponentInfo) : ComponentInfo := ⟨anywhere, c.fields.bare⟩

/-- The components are taken as they are given. -/
def ProfileFields.bareWith (components : List ComponentInfo) : ProfileFields → ProfileFields
  | .internetIop iiopVersion host port objectKey _ =>
      .internetIop iiopVersion host.bare port (objectKey.map KeyStruct.bare) components
  | .genericIop iiopVersion proto host service _ =>
      .genericIop iiopVersion proto.bare host.bare service.bare components
  | .orbitSpecific unixSockPath ipv6Port objectKey =>
      .orbitSpecific unixSockPath.bare ipv6Port (objectKey.map KeyStruct.bare)
  | .multipleComponents _ => .multipleComponents components
  | .unknown profileType data => .unknown profileType data.bare

def ProfileFields.components : ProfileFields → List ComponentInfo
  | .internetIop _ _ _ _ components | .genericIop _ _ _ _ components
  | .multipleComponents components => components
  | .orbitSpecific _ _ _ | .unknown _ _ => []

def ProfileFields.bare (fields : ProfileFields) : ProfileFields :=
  fields.bareWith (fields.components.map ComponentInfo.bare)

/-- What a profile holds, wherever its blocks lie and whatever is behind the end of its strings. -/
def ProfileInfo.bare (p : ProfileInfo) : ProfileInfo := ⟨anywhere, p.fields.bare⟩

/-- The same with its components in the opposite order. -/
def ProfileInfo.turned (p : ProfileInfo) : ProfileInfo :=
  ⟨anywhere, p.fields.bareWith (p.fields.components.map ComponentInfo.bare).reverse⟩

/-! ### What the copies hold -/

def OctetData.copied (data : OctetData) : OctetData :=
  ⟨some data.octets.length, true, none, data.octets⟩

def ComponentFields.copied : ComponentFields → ComponentFields
  | .codeSets _ _ => .codeSets blankCodeSets blankCodeSets
  | .unknown componentType data => .unknown componentType data.copied
  | fields => fields.bare

def ComponentInfo.copied (c : ComponentInfo) : ComponentInfo := ⟨anywhere, c.fields.copied⟩

def ProfileFields.copied : ProfileFields → ProfileFields
  | .unknown profileType data => .unknown profileType data.copied
  | fields => fields.bareWith (fields.components.map ComponentInfo.copied).reverse

def ProfileInfo.copied (p : ProfileInfo) : ProfileInfo := ⟨anywhere, p.fields.copied⟩

def ComponentFields.codeSetData : ComponentFields → List CodeSetData
  | .codeSets forCharData forWcharData => [forCharData, forWcharData]
  | _ => []

def ComponentFields.unknowns : ComponentFields → List OctetData
  | .unknown _ data => [data]
  | _ => []

def ProfileFields.codeSetData (fields : ProfileFields) : List CodeSetData :=
  fields.components.flatMap fun c => c.fields.codeSetData

def ProfileFields.unknowns : ProfileFields → List OctetData
  | .unknown _ data => [data]
  | fields => fields.components.flatMap fun c => c.fields.unknowns

/-- NULL, or a string with an end. -/
def Block.Ends (s : Block) : Prop := ∀ bytes ∈ s, 0 ∈ bytes

/-- Its strings end, and its code sets and the data of what is unknown are as the copies have them. -/
structure ProfileInfo.Plain (p : ProfileInfo) : Prop where
  ends : ∀ s ∈ p.value.strings, s.Ends
  codeSets : ∀ data ∈ p.fields.codeSetData, data.bare = blankCodeSets
  unknowns : ∀ data ∈ p.fields.unknowns, data.bare = ⟨some 0, true, none, []⟩

/-! ### Runs of the copies -/

def HeapEvent.address? : HeapEvent → Option Nat
  | .alloc c => some c.address
  | _ => none

/-- What a copy keeps: it only allocates, and gives each block an address of its own. -/
def copyLaw : Traced.Law HeapEvent Nat where
  ok _ := True
  along next log stop := (∀ e ∈ log, ∃ c, e = .alloc c) ∧
    ∃ k, log.filterMap HeapEvent.address? = List.range' next k ∧ ∀ next', stop = some next' → next' = next + k
  nothing _ _ := ⟨List.forall_mem_nil _, 0, rfl, by rintro _ ⟨⟩; rfl⟩
  append := by
    rintro next log next' rest stop ⟨hlog, k, haddresses, hnext⟩ ⟨hrest, k', haddresses', hstop⟩
    have hnext := hnext next' rfl
    refine ⟨List.forall_mem_append.mpr ⟨hlog, hrest⟩, k + k', ?_, ?_⟩
    · rw [List.filterMap_append, haddresses, haddresses', hnext, List.range'_append_1]
    · intro next'' hnext''
      rw [hstop next'' hnext'', hnext]
      omega

/-- The blocks that are held. -/
def Holds (chunks : List Chunk) (log : List HeapEvent) : Prop := ∀ c, heapTally c log = chunks.count c

theorem Holds.nothing : Holds [] [] := fun _ => rfl

theorem Holds.append {chunks chunks' : List Chunk} {log rest : List HeapEvent} (h : Holds chunks log)
    (h' : Holds chunks' rest) : Holds (chunks ++ chunks') (log ++ rest) := by
  intro c
  rw [heapTally_append, h, h', List.count_append, Nat.cast_add]

/-- In another order. -/
theorem Holds.perm {chunks chunks' : List Chunk} {log : List HeapEvent} (h : Holds chunks log)
    (hperm : ∀ c, chunks'.count c = chunks.count c) : Holds chunks' log := by
  intro c
  rw [h, hperm]

abbrev CopyKeeps {α : Type} (m : Traced HeapEvent Nat α) (post : α → List HeapEvent → Prop) : Prop :=
  ∀ next, Traced.Keeps copyLaw next m fun a log _ => post a log

theorem keeps_newChunk (allocator : Allocator) :
    CopyKeeps (newChunk allocator) fun c log => c.allocator = allocator ∧ Holds [c] log := by
  intro next
  refine .step id (fun _ => ⟨?_, 1, rfl, ?_⟩) ⟨rfl, fun c => ?_⟩
  · simp
  · rintro _ ⟨⟩
    rfl
  · rw [count_singleton, heapTally_cons, heapTally_nil, add_zero]
    rfl

theorem keeps_newBytes (allocator : Allocator) (size : Nat) :
    CopyKeeps (newBytes allocator size) fun p log =>
      MadeBy allocator p ∧ (p = none ↔ size = 0) ∧ Holds p.toList log := by
  intro next
  rw [newBytes]
  split
  · exact .pure ⟨fun _ h => (nomatch h), iff_of_true rfl ‹_›, .nothing⟩
  · refine (keeps_newChunk allocator next).bind fun c log _ h => .pure ?_
    rw [List.append_nil]
    exact ⟨madeBy_some.mpr h.1, iff_of_false (Option.some_ne_none _) ‹_›, h.2⟩

theorem keeps_gStrdup (s : Chars) : CopyKeeps (gStrdup s) fun s' log =>
    s.text.Ends ∧ s'.bare = s.bare ∧ MadeBy .glib s'.block ∧ Holds s'.block.toList log := by
  intro next
  obtain ⟨_ | block, bytes⟩ := s
  · exact .pure ⟨fun _ h => (nomatch h), rfl, fun _ h => (nomatch h), .nothing⟩
  · rw [gStrdup]
    simp only
    split
    · rename_i hend
      refine (keeps_newChunk .glib next).bind fun c log _ h => .pure ?_
      rw [List.append_nil]
      refine ⟨?_, ?_, madeBy_some.mpr h.1, h.2⟩
      · rintro _ ⟨⟩
        exact hend
      · rw [Chars.bare, Chars.bare]
        simp only [untilZero_untilZero]
    · exact fun _ => ⟨⟨List.forall_mem_nil _, 0, rfl, fun _ h => (nomatch h)⟩, fun _ _ h => (nomatch h)⟩

theorem keeps_objectKeyCopy (key : Option KeyStruct) : CopyKeeps (objectKeyCopy key) fun key' log =>
    key'.map KeyStruct.bare = key.map KeyStruct.bare ∧ KeyOwn key' ∧ Holds (keyChunks key') log := by
  intro next
  cases key with
  | none => exact .pure ⟨rfl, fun _ h => (nomatch h), .nothing⟩
  | some src =>
    refine (keeps_newChunk .orbit next).bind fun self log next' hself => ?_
    refine (keeps_newBytes .orbit src.octets.length next').bind fun buffer log' _ hbuffer => .pure ?_
    obtain ⟨hmade, hself⟩ := hself
    obtain ⟨hmade', -, hbuffer⟩ := hbuffer
    refine ⟨rfl, ?_, ?_⟩
    · rintro _ ⟨⟩
      exact ⟨hmade, hmade'⟩
    · have hall := hself.append (hbuffer.append .nothing)
      rw [List.append_nil] at hall
      rw [keyChunks, Option.toList_some, List.flatMap_singleton]
      exact hall

/-- The data has been copied: who frees it with `g_free` frees what he has not made. -/
def OctetData.Fresh (data : OctetData) : Prop :=
  MadeBy .orbit data.buffer ∧ (data.buffer = none ↔ data.octets = [])

theorem OctetData.keeps_copy (data : OctetData) : CopyKeeps data.copy fun data' log =>
    data'.bare = data.copied ∧ data'.Fresh ∧ Holds data'.buffer.toList log := by
  intro next
  refine (keeps_newBytes .orbit data.octets.length next).bind fun buffer log _ h => .pure ?_
  rw [List.append_nil]
  exact ⟨rfl, ⟨h.1, h.2.1.trans List.length_eq_zero_iff⟩, h.2.2⟩

/-- What is compared when something is copied. -/
structure Copying (α : Type) where
  strings : α → List Block
  bare : α → α
  copied : α → α
  unknowns : α → List OctetData
  Own : α → Prop
  chunks : α → List Chunk

/-- `a'` has been made as the copy of `a`. -/
structure Copies {α : Type} (v : Copying α) (a a' : α) (log : List HeapEvent) : Prop where
  ends : ∀ s ∈ v.strings a, s.Ends
  same : v.bare a' = v.copied a
  fresh : ∀ data ∈ v.unknowns a', data.Fresh
  own : (∀ data ∈ v.unknowns a', data.octets = []) → v.Own a'
  held : Holds (v.chunks a') log

def componentCopying : Copying ComponentInfo :=
  ⟨fun c => c.value.strings, ComponentInfo.bare, ComponentInfo.copied, fun c => c.fields.unknowns,
    ComponentInfo.Own, ComponentInfo.chunks⟩

def profileCopying : Copying ProfileInfo :=
  ⟨fun p => p.value.strings, ProfileInfo.bare, ProfileInfo.copied, fun p => p.fields.unknowns,
    ProfileInfo.Own, ProfileInfo.chunks⟩

def componentFieldsCopying : Copying ComponentFields :=
  ⟨fun fields => fields.value.strings, ComponentFields.bare, ComponentFields.copied,
    ComponentFields.unknowns, ComponentFields.Own, ComponentFields.chunks⟩

def profileFieldsCopying : Copying ProfileFields :=
  ⟨fun fields => fields.value.strings, ProfileFields.bare, ProfileFields.copied, ProfileFields.unknowns,
    ProfileFields.Own, ProfileFields.chunks⟩

def Copying.all {α : Type} (v : Copying α) : Copying (List α) :=
  ⟨List.flatMap v.strings, List.map v.bare, fun as => (as.map v.copied).reverse, List.flatMap v.unknowns,
    fun as => ∀ a ∈ as, v.Own a, List.flatMap v.chunks⟩

theorem keeps_copyAll {α : Type} {v : Copying α} {copy : α → Traced HeapEvent Nat α}
    (hcopy : ∀ a, CopyKeeps (copy a) (Copies v a)) (ret as : List α) :
    CopyKeeps (copyAll copy ret as) fun ret' log => ∃ as', ret' = as' ++ ret ∧ Copies v.all as as' log := by
  induction as generalizing ret with
  | nil =>
    intro next
    refine .pure ⟨[], rfl, List.forall_mem_nil _, rfl, List.forall_mem_nil _, fun _ => List.forall_mem_nil _, ?_⟩
    exact .nothing
  | cons a as ih =>
    intro next
    refine (hcopy a next).bind fun a' log next' ha => ?_
    refine (ih (a' :: ret) next').mono fun ret' rest _ has => ?_
    obtain ⟨as', rfl, has⟩ := has
    refine ⟨as' ++ [a'], (List.append_assoc as' [a'] ret).symm, ?_, ?_, ?_, ?_, ?_⟩
    · simp only [Copying.all, List.flatMap_cons, List.forall_mem_append]
      exact ⟨ha.ends, has.ends⟩
    · have hsame := has.same
      simp only [Copying.all] at hsame
      simp only [Copying.all, List.map_append, List.map_cons, List.map_nil, List.reverse_cons, hsame, ha.same]
    · simp only [Copying.all, List.flatMap_append, List.flatMap_singleton, List.forall_mem_append]
      exact ⟨has.fresh, ha.fresh⟩
    · simp only [Copying.all, List.flatMap_append, List.flatMap_singleton, List.forall_mem_append,
        List.forall_mem_singleton]
      exact fun h => ⟨has.own h.1, ha.own h.2⟩
    · refine (ha.held.append has.held).perm fun c => ?_
      simp only [Copying.all, List.flatMap_append, List.flatMap_singleton, List.count_append]
      omega

theorem ComponentFields.keeps_copy (fields : ComponentFields) :
    CopyKeeps fields.copy (Copies componentFieldsCopying fields) := by
  intro next
  cases fields with
  | genericSslSecTrans service =>
    refine (keeps_gStrdup service next).bind fun service' log _ h => .pure ?_
    obtain ⟨hends, hsame, hown, hheld⟩ := h
    rw [List.append_nil]
    refine ⟨?_, congrArg ComponentFields.genericSslSecTrans hsame, List.forall_mem_nil _, fun _ => hown, hheld⟩
    exact List.forall_mem_singleton.mpr hends
  | sslSecTrans targetSupports targetRequires port =>
    exact .pure ⟨List.forall_mem_nil _, rfl, List.forall_mem_nil _, fun _ => trivial, .nothing⟩
  | completeObjectKey objectKey =>
    refine (keeps_objectKeyCopy objectKey next).bind fun objectKey' log _ h => .pure ?_
    obtain ⟨hsame, hown, hheld⟩ := h
    rw [List.append_nil]
    exact ⟨List.forall_mem_nil _, congrArg ComponentFields.completeObjectKey hsame, List.forall_mem_nil _,
      fun _ => hown, hheld⟩
  | codeSets forCharData forWcharData =>
    have hnone : MadeBy .orbit none := fun _ h => (nomatch h)
    exact .pure ⟨List.forall_mem_nil _, rfl, List.forall_mem_nil _, fun _ => ⟨hnone, hnone⟩, .nothing⟩
  | unknown componentType data =>
    refine (data.keeps_copy next).bind fun data' log _ h => .pure ?_
    obtain ⟨hsame, hfresh, hheld⟩ := h
    rw [List.append_nil]
    refine ⟨List.forall_mem_nil _, congrArg (ComponentFields.unknown componentType) hsame,
      List.forall_mem_singleton.mpr hfresh, fun h => ?_, hheld⟩
    have hnone := hfresh.2.mpr (h data' List.mem_cons_self)
    rintro c hc
    rw [hnone] at hc
    cases hc

theorem ComponentInfo.keeps_copy (c : ComponentInfo) : CopyKeeps c.copy (Copies componentCopying c) := by
  intro next
  refine (keeps_newChunk .glib next).bind fun ret log next' hret => ?_
  refine (c.fields.keeps_copy next').bind fun fields log' _ h => .pure ?_
  obtain ⟨hmade, hret⟩ := hret
  rw [List.append_nil]
  refine ⟨h.ends, congrArg (ComponentInfo.mk anywhere) h.same, h.fresh, fun hdata => ⟨hmade, h.own hdata⟩, ?_⟩
  refine (hret.append h.held).perm fun c => ?_
  simp only [componentCopying, ComponentInfo.chunks, componentFieldsCopying, List.count_append]
  omega

theorem keeps_componentsCopy (components : List ComponentInfo) :
    CopyKeeps (componentsCopy components) (Copies componentCopying.all components) := by
  intro next
  refine (keeps_copyAll ComponentInfo.keeps_copy [] components next).mono fun ret log _ h => ?_
  obtain ⟨as, rfl, h⟩ := h
  rw [List.append_nil]
  exact h

theorem strings_components (components : List ComponentInfo) :
    (components.map ComponentInfo.value).flatMap IopComponent.strings =
      componentCopying.all.strings components := by
  rw [List.flatMap_map]
  rfl

theorem ProfileFields.keeps_copy (fields : ProfileFields) :
    CopyKeeps fields.copy (Copies profileFieldsCopying fields) := by
  intro next
  cases fields with
  | internetIop iiopVersion host port objectKey components =>
    refine (keeps_gStrdup host next).bind fun host' log next₁ hhost => ?_
    refine (keeps_objectKeyCopy objectKey next₁).bind fun key' log₂ next₂ hkey => ?_
    refine (keeps_componentsCopy components next₂).bind fun cs log₃ _ hcs => .pure ?_
    obtain ⟨hends, hsame, hown, hheld⟩ := hhost
    obtain ⟨hsame₂, hown₂, hheld₂⟩ := hkey
    rw [List.append_nil]
    refine ⟨?_, ?_, hcs.fresh, fun h => ⟨hcs.own h, hown, hown₂⟩, ?_⟩
    · refine List.forall_mem_cons.mpr ⟨hends, ?_⟩
      rw [strings_components]
      exact hcs.ends
    · have hcs := hcs.same
      simp only [componentCopying, Copying.all] at hcs
      simp only [profileFieldsCopying, ProfileFields.bare, ProfileFields.copied, ProfileFields.bareWith,
        ProfileFields.components, hsame, hsame₂, hcs]
    · refine (hheld.append (hheld₂.append hcs.held)).perm fun c => ?_
      simp only [profileFieldsCopying, ProfileFields.chunks, componentsChunks, componentCopying, Copying.all,
        List.count_append]
      omega
  | genericIop iiopVersion proto host service components =>
    refine (keeps_gStrdup proto next).bind fun proto' log next₁ hproto => ?_
    refine (keeps_gStrdup host next₁).bind fun host' log₂ next₂ hhost => ?_
    refine (keeps_gStrdup service next₂).bind fun service' log₃ next₃ hservice => ?_
    refine (keeps_componentsCopy components next₃).bind fun cs log₄ _ hcs => .pure ?_
    obtain ⟨hends, hsame, hown, hheld⟩ := hproto
    obtain ⟨hends₂, hsame₂, hown₂, hheld₂⟩ := hhost
    obtain ⟨hends₃, hsame₃, hown₃, hheld₃⟩ := hservice
    rw [List.append_nil]
    refine ⟨?_, ?_, hcs.fresh, fun h => ⟨hcs.own h, hown, hown₂, hown₃⟩, ?_⟩
    · refine List.forall_mem_cons.mpr ⟨hends, List.forall_mem_cons.mpr ⟨hends₂,
        List.forall_mem_cons.mpr ⟨hends₃, ?_⟩⟩⟩
      rw [strings_components]
      exact hcs.ends
    · have hcs := hcs.same
      simp only [componentCopying, Copying.all] at hcs
      simp only [profileFieldsCopying, ProfileFields.bare, ProfileFields.copied, ProfileFields.bareWith,
        ProfileFields.components, hsame, hsame₂, hsame₃, hcs]
    · refine (hheld.append (hheld₂.append (hheld₃.append hcs.held))).perm fun c => ?_
      simp only [profileFieldsCopying, ProfileFields.chunks, componentsChunks, componentCopying, Copying.all,
        List.count_append]
      omega
  | orbitSpecific unixSockPath ipv6Port objectKey =>
    refine (keeps_gStrdup unixSockPath next).bind fun path' log next₁ hpath => ?_
    refine (keeps_objectKeyCopy objectKey next₁).bind fun key' log₂ _ hkey => .pure ?_
    obtain ⟨hends, hsame, hown, hheld⟩ := hpath
    obtain ⟨hsame₂, hown₂, hheld₂⟩ := hkey
    rw [List.append_nil]
    refine ⟨List.forall_mem_singleton.mpr hends, ?_, List.forall_mem_nil _, fun _ => ⟨hown, hown₂⟩,
      hheld.append hheld₂⟩
    simp only [profileFieldsCopying, ProfileFields.bare, ProfileFields.copied, ProfileFields.bareWith,
      hsame, hsame₂]
  | multipleComponents components =>
    refine (keeps_componentsCopy components next).bind fun cs log _ hcs => .pure ?_
    rw [List.append_nil]
    refine ⟨?_, congrArg ProfileFields.multipleComponents hcs.same, hcs.fresh, hcs.own, hcs.held⟩
    intro s hs
    refine hcs.ends s ?_
    rw [← strings_components]
    exact hs
  | unknown profileType data =>
    refine (data.keeps_copy next).bind fun data' log _ h => .pure ?_
    obtain ⟨hsame, hfresh, hheld⟩ := h
    rw [List.append_nil]
    refine ⟨List.forall_mem_nil _, congrArg (ProfileFields.unknown profileType) hsame,
      List.forall_mem_singleton.mpr hfresh, fun h => ?_, hheld⟩
    have hnone := hfresh.2.mpr (h data' List.mem_cons_self)
    rintro c hc
    rw [hnone] at hc
    cases hc

theorem ProfileInfo.keeps_copy (p : ProfileInfo) : CopyKeeps p.copy (Copies profileCopying p) := by
  intro next
  refine (keeps_newChunk .glib next).bind fun ret log next' hret => ?_
  refine (p.fields.keeps_copy next').bind fun fields log' _ h => .pure ?_
  obtain ⟨hmade, hret⟩ := hret
  rw [List.append_nil]
  refine ⟨h.ends, congrArg (ProfileInfo.mk anywhere) h.same, h.fresh, fun hdata => ⟨hmade, h.own hdata⟩, ?_⟩
  refine (hret.append h.held).perm fun c => ?_
  simp only [profileCopying, ProfileInfo.chunks, profileFieldsCopying, List.count_append]
  omega

theorem keeps_profilesCopy (profileList : List ProfileInfo) :
    CopyKeeps (profilesCopy profileList) (Copies profileCopying.all profileList) := by
  intro next
  refine (keeps_copyAll ProfileInfo.keeps_copy [] profileList next).mono fun ret log _ h => ?_
  obtain ⟨as, rfl, h⟩ := h
  rw [List.append_nil]
  exact h

/-! ### Runs that come to their end -/

section Ends
open Traced

theorem ends_newChunk (allocator : Allocator) : Ends (newChunk allocator) := .step _

theorem ends_newBytes (allocator : Allocator) (size : Nat) : Ends (newBytes allocator size) := by
  rw [newBytes]
  split
  · exact .pure _
  · exact (ends_newChunk allocator).bind fun c => .pure _

theorem ends_gStrdup {s : Chars} (h : s.text.Ends) : Ends (gStrdup s) := by
  obtain ⟨_ | block, bytes⟩ := s
  · exact .pure _
  · have hend : 0 ∈ bytes := h bytes rfl
    rw [gStrdup]
    simp only [hend, if_true]
    exact (ends_newChunk .glib).bind fun block => .pure _

theorem ends_objectKeyCopy (key : Option KeyStruct) : Ends (objectKeyCopy key) := by
  cases key with
  | none => exact .pure _
  | some src =>
    exact (ends_newChunk .orbit).bind fun self => (ends_newBytes .orbit _).bind fun _ => .pure _

theorem OctetData.ends_copy (data : OctetData) : Ends data.copy :=
  (ends_newBytes .orbit _).bind fun _ => .pure _

theorem ends_copyAll {α : Type} {copy : α → Traced HeapEvent Nat α} {as : List α}
    (h : ∀ a ∈ as, Ends (copy a)) (ret : List α) : Ends (copyAll copy ret as) := by
  induction as generalizing ret with
  | nil => exact .pure ret
  | cons a as ih =>
    obtain ⟨ha, has⟩ := List.forall_mem_cons.mp h
    exact ha.bind fun a' => ih has (a' :: ret)

theorem ComponentInfo.ends_copy {c : ComponentInfo} (h : ∀ s ∈ c.value.strings, s.Ends) : Ends c.copy := by
  obtain ⟨self, fields⟩ := c
  refine (ends_newChunk .glib).bind fun ret => .bind ?_ fun fields => .pure _
  cases fields with
  | genericSslSecTrans service =>
    exact (ends_gStrdup (h service.text List.mem_cons_self)).bind fun service => .pure _
  | sslSecTrans targetSupports targetRequires port => exact .pure _
  | completeObjectKey objectKey => exact (ends_objectKeyCopy objectKey).bind fun objectKey => .pure _
  | codeSets forCharData forWcharData => exact .pure _
  | unknown componentType data => exact data.ends_copy.bind fun data => .pure _

theorem ends_componentsCopy {components : List ComponentInfo}
    (h : ∀ s ∈ (components.map ComponentInfo.value).flatMap IopComponent.strings, s.Ends) :
    Ends (componentsCopy components) := by
  refine ends_copyAll (fun c hc => c.ends_copy fun s hs => h s ?_) []
  exact List.mem_flatMap_of_mem (List.mem_map_of_mem hc) hs

theorem ProfileInfo.ends_copy {p : ProfileInfo} (h : ∀ s ∈ p.value.strings, s.Ends) : Ends p.copy := by
  obtain ⟨self, fields⟩ := p
  refine (ends_newChunk .glib).bind fun ret => .bind ?_ fun fields => .pure _
  cases fields with
  | internetIop iiopVersion host port objectKey components =>
    obtain ⟨hhost, hcs⟩ := List.forall_mem_cons.mp h
    exact (ends_gStrdup hhost).bind fun host => (ends_objectKeyCopy objectKey).bind fun objectKey =>
      (ends_componentsCopy hcs).bind fun components => .pure _
  | genericIop iiopVersion proto host service components =>
    obtain ⟨hproto, h⟩ := List.forall_mem_cons.mp h
    obtain ⟨hhost, h⟩ := List.forall_mem_cons.mp h
    obtain ⟨hservice, hcs⟩ := List.forall_mem_cons.mp h
    exact (ends_gStrdup hproto).bind fun proto => (ends_gStrdup hhost).bind fun host =>
      (ends_gStrdup hservice).bind fun service => (ends_componentsCopy hcs).bind fun components => .pure _
  | orbitSpecific unixSockPath ipv6Port objectKey =>
    exact (ends_gStrdup (List.forall_mem_singleton.mp h)).bind fun path =>
      (ends_objectKeyCopy objectKey).bind fun objectKey => .pure _
  | multipleComponents components => exact (ends_componentsCopy h).bind fun components => .pure _
  | unknown profileType data => exact data.ends_copy.bind fun data => .pure _

theorem ends_profilesCopy {profileList : List ProfileInfo} (h : ∀ p ∈ profileList, p.Plain) :
    Ends (profilesCopy profileList) :=
  ends_copyAll (fun p hp => p.ends_copy (h p hp).ends) []

end Ends

/-! ### Strings that are written -/

theorem readString_bare (s : Chars) : readString s.bare.text = readString s.text := by
  obtain ⟨_ | block, bytes⟩ := s
  · rfl
  · simp only [Chars.bare, Chars.text, Option.map_some, readString, zero_mem_untilZero, takeWhile_untilZero]

theorem ComponentInfo.readStrings_bare (c : ComponentInfo) :
    c.bare.value.readStrings = c.value.readStrings := by
  obtain ⟨self, fields⟩ := c
  cases fields with
  | genericSslSecTrans service =>
    simp only [ComponentInfo.bare, ComponentInfo.value, ComponentFields.bare, ComponentFields.value,
      IopComponent.readStrings, readString_bare]
  | completeObjectKey objectKey => cases objectKey <;> rfl
  | _ => rfl

theorem readStrings_components (components : List ComponentInfo) :
    ((components.map ComponentInfo.bare).map ComponentInfo.value).mapM IopComponent.readStrings =
      (components.map ComponentInfo.value).mapM IopComponent.readStrings := by
  induction components with
  | nil => rfl
  | cons c cs ih => simp only [List.map_cons, List.mapM_cons, ih, c.readStrings_bare]

theorem ProfileInfo.readStrings_bare (p : ProfileInfo) : p.bare.value.readStrings = p.value.readStrings := by
  have hkey : ∀ key : Option KeyStruct, (key.map KeyStruct.bare).map KeyStruct.octets = key.map KeyStruct.octets := by
    intro key
    cases key <;> rfl
  obtain ⟨self, fields⟩ := p
  cases fields <;>
    simp only [ProfileInfo.bare, ProfileInfo.value, ProfileFields.bare, ProfileFields.bareWith,
      ProfileFields.components, ProfileFields.value, IopProfile.readStrings, readString_bare,
      readStrings_components, hkey, OctetData.bare]

/-- What `IOP_profiles_marshal` writes of a list of profiles, for an object with that key. -/
def marshalled (host : Endian) (key : List UInt8) (typeId : CString) (profileList : List ProfileInfo) :
    Except ObjrefFault Put := do
  let profiles ← (profileList.map ProfileInfo.value).mapM IopProfile.readStrings
  return marshalProfiles host key typeId profiles

theorem marshalled_bare (host : Endian) (key : List UInt8) (typeId : CString) (ps : List ProfileInfo) :
    marshalled host key typeId (ps.map ProfileInfo.bare) = marshalled host key typeId ps := by
  rw [marshalled, marshalled]
  congr 1
  induction ps with
  | nil => rfl
  | cons p ps ih => simp only [List.map_cons, List.mapM_cons, ih, p.readStrings_bare]

/-! ### Members that the copies leave out -/

theorem ComponentFields.codeSetData_bare (fields : ComponentFields) :
    fields.bare.codeSetData = fields.codeSetData.map CodeSetData.bare := by
  cases fields <;> rfl

theorem ComponentFields.unknowns_bare (fields : ComponentFields) :
    fields.bare.unknowns = fields.unknowns.map OctetData.bare := by
  cases fields <;> rfl

theorem ComponentFields.codeSetData_copied (fields : ComponentFields) :
    ∀ data ∈ fields.copied.codeSetData, data = blankCodeSets := by
  cases fields with
  | codeSets forCharData forWcharData => simp [ComponentFields.copied, ComponentFields.codeSetData]
  | _ => exact List.forall_mem_nil _

theorem ComponentFields.unknowns_copied (fields : ComponentFields) :
    ∀ data ∈ fields.copied.unknowns, data = data.copied := by
  cases fields with
  | unknown componentType data => exact List.forall_mem_singleton.mpr rfl
  | _ => exact List.forall_mem_nil _

/-- Nothing is left out of a component without code sets and data. -/
theorem ComponentFields.copied_eq {fields : ComponentFields}
    (hcodeSets : ∀ data ∈ fields.codeSetData, data.bare = blankCodeSets)
    (hunknowns : ∀ data ∈ fields.unknowns, data.bare = ⟨some 0, true, none, []⟩) :
    fields.copied = fields.bare := by
  cases fields with
  | codeSets forCharData forWcharData =>
    have hchar := hcodeSets forCharData List.mem_cons_self
    have hwchar := hcodeSets forWcharData (List.mem_cons_of_mem _ List.mem_cons_self)
    rw [ComponentFields.copied, ComponentFields.bare, hchar, hwchar]
  | unknown componentType data =>
    have hdata := hunknowns data List.mem_cons_self
    have hoctets : data.octets = [] := congrArg OctetData.octets hdata
    rw [ComponentFields.copied, ComponentFields.bare, hdata, OctetData.copied, hoctets]
    rfl
  | _ => rfl

theorem ProfileFields.codeSetData_bare (fields : ProfileFields) :
    fields.bare.codeSetData = fields.codeSetData.map CodeSetData.bare := by
  have hcomponents : ∀ cs : List ComponentInfo,
      (cs.map ComponentInfo.bare).flatMap (fun c => c.fields.codeSetData) =
        (cs.flatMap fun c => c.fields.codeSetData).map CodeSetData.bare := by
    intro cs
    rw [List.flatMap_map, List.map_flatMap]
    exact congrFun (congrArg _ (funext fun c => c.fields.codeSetData_bare)) _
  cases fields with
  | orbitSpecific unixSockPath ipv6Port objectKey => rfl
  | unknown profileType data => rfl
  | _ => exact hcomponents _

theorem ProfileFields.unknowns_bare (fields : ProfileFields) :
    fields.bare.unknowns = fields.unknowns.map OctetData.bare := by
  have hcomponents : ∀ cs : List ComponentInfo,
      (cs.map ComponentInfo.bare).flatMap (fun c => c.fields.unknowns) =
        (cs.flatMap fun c => c.fields.unknowns).map OctetData.bare := by
    intro cs
    rw [List.flatMap_map, List.map_flatMap]
    exact congrFun (congrArg _ (funext fun c => c.fields.unknowns_bare)) _
  cases fields with
  | orbitSpecific unixSockPath ipv6Port objectKey => rfl
  | unknown profileType data => rfl
  | _ => exact hcomponents _

theorem ProfileFields.codeSetData_copied (fields : ProfileFields) :
    ∀ data ∈ fields.copied.codeSetData, data = blankCodeSets := by
  have hcomponents : ∀ cs : List ComponentInfo, ∀ data ∈
      (cs.map ComponentInfo.copied).reverse.flatMap (fun c => c.fields.codeSetData), data = blankCodeSets := by
    intro cs
    rw [List.forall_mem_flatMap]
    intro c hc
    obtain ⟨c', -, rfl⟩ := List.mem_map.mp (List.mem_reverse.mp hc)
    exact c'.fields.codeSetData_copied
  cases fields with
  | orbitSpecific unixSockPath ipv6Port objectKey => exact List.forall_mem_nil _
  | unknown profileType data => exact List.forall_mem_nil _
  | _ => exact hcomponents _

theorem ProfileFields.unknowns_copied (fields : ProfileFields) :
    ∀ data ∈ fields.copied.unknowns, data = data.copied := by
  have hcomponents : ∀ cs : List ComponentInfo, ∀ data ∈
      (cs.map ComponentInfo.copied).reverse.flatMap (fun c => c.fields.unknowns), data = data.copied := by
    intro cs
    rw [List.forall_mem_flatMap]
    intro c hc
    obtain ⟨c', -, rfl⟩ := List.mem_map.mp (List.mem_reverse.mp hc)
    exact c'.fields.unknowns_copied
  cases fields with
  | orbitSpecific unixSockPath ipv6Port objectKey => exact List.forall_mem_nil _
  | unknown profileType data => exact List.forall_mem_singleton.mpr rfl
  | _ => exact hcomponents _

theorem ProfileInfo.Plain.copied_eq {p : ProfileInfo} (h : p.Plain) : p.copied = p.turned := by
  obtain ⟨self, fields⟩ := p
  obtain ⟨-, hcodeSets, hunknowns⟩ := h
  have hcomponents : ∀ cs : List ComponentInfo,
      (∀ data ∈ cs.flatMap (fun c => c.fields.codeSetData), data.bare = blankCodeSets) →
      (∀ data ∈ cs.flatMap (fun c => c.fields.unknowns), data.bare = ⟨some 0, true, none, []⟩) →
        cs.map ComponentInfo.copied = cs.map ComponentInfo.bare := by
    intro cs hcodeSets hunknowns
    rw [List.forall_mem_flatMap] at hcodeSets hunknowns
    refine List.map_congr_left fun c hc => congrArg (ComponentInfo.mk anywhere) ?_
    exact ComponentFields.copied_eq (hcodeSets c hc) (hunknowns c hc)
  refine congrArg (ProfileInfo.mk anywhere) ?_
  cases fields with
  | unknown profileType data =>
    have hdata := hunknowns data List.mem_cons_self
    have hoctets : data.octets = [] := congrArg OctetData.octets hdata
    simp only [ProfileFields.copied, ProfileFields.bareWith, hdata, OctetData.copied, hoctets, List.length_nil]
  | orbitSpecific unixSockPath ipv6Port objectKey => rfl
  | internetIop iiopVersion host port objectKey components
  | genericIop iiopVersion proto host service components
  | multipleComponents components =>
    simp only [ProfileFields.copied, ProfileFields.components, hcomponents components hcodeSets hunknowns]

/-! ### Data that is freed -/

theorem mem_gFree {p : Option Chunk} {c : Chunk} (h : c ∈ p) : .free ⟨c.address, .glib⟩ ∈ gFree p :=
  List.mem_map_of_mem (Option.mem_toList.mpr h)

/-- The copied data of what is unknown is a block, and `g_free` is called for it. -/
theorem ProfileInfo.freed_unknown {p : ProfileInfo} {data : OctetData} {c : Chunk}
    (hdata : data ∈ p.fields.unknowns) (hc : c ∈ data.buffer) :
    c ∈ p.chunks ∧ .free ⟨c.address, .glib⟩ ∈ p.free := by
  have hcomponents : ∀ cs : List ComponentInfo, data ∈ cs.flatMap (fun c => c.fields.unknowns) →
      c ∈ componentsChunks cs ∧ .free ⟨c.address, .glib⟩ ∈ componentsFree cs := by
    intro cs hmem
    obtain ⟨⟨self, fields⟩, hcomponent, hmem⟩ := List.mem_flatMap.mp hmem
    cases fields with
    | unknown componentType data' =>
      obtain rfl := List.mem_singleton.mp hmem
      refine ⟨List.mem_flatMap_of_mem hcomponent (List.mem_append_left _ (Option.mem_toList.mpr hc)), ?_⟩
      exact List.mem_flatMap_of_mem hcomponent (List.mem_append_left _ (mem_gFree hc))
    | _ => cases hmem
  obtain ⟨self, fields⟩ := p
  simp only [ProfileInfo.chunks, ProfileInfo.free, List.mem_append]
  cases fields with
  | internetIop iiopVersion host port objectKey components =>
    obtain ⟨hchunks, hfree⟩ := hcomponents components hdata
    simp only [ProfileFields.chunks, ProfileFields.free, List.mem_append]
    exact ⟨Or.inl (Or.inl (Or.inl hchunks)), Or.inl (Or.inl (Or.inl hfree))⟩
  | genericIop iiopVersion proto host service components =>
    obtain ⟨hchunks, hfree⟩ := hcomponents components hdata
    simp only [ProfileFields.chunks, ProfileFields.free, List.mem_append]
    exact ⟨Or.inl (Or.inl (Or.inl (Or.inl hchunks))), Or.inl (Or.inl (Or.inl (Or.inl hfree)))⟩
  | orbitSpecific unixSockPath ipv6Port objectKey => cases hdata
  | multipleComponents components =>
    obtain ⟨hchunks, hfree⟩ := hcomponents components hdata
    exact ⟨Or.inl hchunks, Or.inl hfree⟩
  | unknown profileType data' =>
    obtain rfl := List.mem_singleton.mp hdata
    exact ⟨Or.inl (Option.mem_toList.mpr hc), Or.inl (mem_gFree hc)⟩

section Runs
variable {log rest : List HeapEvent} {next k : Nat} {c : Chunk}

theorem heapTally_allocs (h : ∀ e ∈ log, ∃ c, e = .alloc c) (c : Chunk) :
    heapTally c log = log.count (.alloc c) := by
  induction log with
  | nil => rfl
  | cons e log ih =>
    obtain ⟨⟨c', rfl⟩, hlog⟩ := List.forall_mem_cons.mp h
    rw [heapTally_cons, ih hlog, List.count_cons, HeapEvent.effect]
    simp only [beq_iff_eq, HeapEvent.alloc.injEq]
    split <;> omega

theorem heapTally_frees (h : Frees log) (c : Chunk) : heapTally c log = -log.count (.free c) := by
  induction log with
  | nil => rfl
  | cons e log ih =>
    obtain ⟨⟨c', rfl⟩, hlog⟩ := List.forall_mem_cons.mp h
    rw [heapTally_cons, ih hlog, List.count_cons, HeapEvent.effect]
    simp only [beq_iff_eq, HeapEvent.free.injEq]
    split <;> omega

theorem le_address (haddresses : log.filterMap HeapEvent.address? = List.range' next k)
    (h : .alloc c ∈ log) : next ≤ c.address := by
  have hmem : c.address ∈ log.filterMap HeapEvent.address? := List.mem_filterMap.mpr ⟨_, h, rfl⟩
  rw [haddresses, List.mem_range'_1] at hmem
  exact hmem.1

/-- No address is given to two blocks. -/
theorem alloc_inj (haddresses : log.filterMap HeapEvent.address? = List.range' next k) {c' : Chunk}
    (h : .alloc c ∈ log) (h' : .alloc c' ∈ log) (heq : c.address = c'.address) : c = c' := by
  have hnodup : (log.filterMap HeapEvent.address?).Nodup := haddresses ▸ List.nodup_range'
  clear haddresses
  induction log with
  | nil => cases h
  | cons e log ih =>
    have hmem : ∀ d : Chunk, .alloc d ∈ log → d.address ∈ log.filterMap HeapEvent.address? :=
      fun d hd => List.mem_filterMap.mpr ⟨_, hd, rfl⟩
    rcases List.mem_cons.mp h with rfl | hlog
    · rcases List.mem_cons.mp h' with hhead | hlog'
      · exact (HeapEvent.alloc.inj hhead).symm
      · exact absurd (heq ▸ hmem c' hlog') (List.nodup_cons.mp hnodup).1
    · rcases List.mem_cons.mp h' with rfl | hlog'
      · exact absurd (heq ▸ hmem c hlog) (List.nodup_cons.mp hnodup).1
      · refine ih hlog hlog' (hnodup.sublist ?_)
        exact (List.sublist_cons_self e log).filterMap _

end Runs

/-! ### Copies that are faithful -/

/-- The copy holds the same and is written as the same, has no block in common with the list that has
been copied, and is freed by `IOP_delete_profiles`, each block once by the one that has made it and
nothing else. -/
structure FaithfulCopy (ps copy : List ProfileInfo) (log : List HeapEvent) : Prop where
  same : copy.map ProfileInfo.bare = ps.map ProfileInfo.bare
  marshals : ∀ host key typeId, marshalled host key typeId copy = marshalled host key typeId ps
  apart : ∀ c ∈ profilesChunks copy, ∀ c' ∈ profilesChunks ps, c.address ≠ c'.address
  freed : ∀ c, heapTally c (log ++ deleteProfiles copy) = 0
  kept : ∀ c ∈ profilesChunks ps, .free c ∉ deleteProfiles copy

section Faithful
variable {ps copy : List ProfileInfo} {log : List HeapEvent} {next k : Nat}

theorem alloc_of_chunk (hlog : ∀ e ∈ log, ∃ c, e = .alloc c) (h : Copies profileCopying.all ps copy log)
    {c : Chunk} (hc : c ∈ profilesChunks copy) : .alloc c ∈ log := by
  have hpos : 0 < (profilesChunks copy).count c := List.count_pos_iff.mpr hc
  have hheld : heapTally c log = (profilesChunks copy).count c := h.held c
  rw [heapTally_allocs hlog] at hheld
  exact List.count_pos_iff.mp (by omega)

/-- What is unknown has no data where all that has been copied is freed by the one that has made
it. -/
theorem FaithfulCopy.no_data (hlog : ∀ e ∈ log, ∃ c, e = .alloc c)
    (haddresses : log.filterMap HeapEvent.address? = List.range' next k)
    (hcopies : Copies profileCopying.all ps copy log) (h : FaithfulCopy ps copy log) {p : ProfileInfo}
    (hp : p ∈ copy) {data : OctetData} (hdata : data ∈ p.fields.unknowns) : data.octets = [] := by
  obtain ⟨hmade, hnone⟩ := hcopies.fresh data (List.mem_flatMap_of_mem hp hdata)
  cases hbuffer : data.buffer with
  | none => exact hnone.mp hbuffer
  | some c =>
    obtain ⟨hchunk, hfree⟩ := p.freed_unknown hdata hbuffer
    have halloc := alloc_of_chunk hlog hcopies (List.mem_flatMap_of_mem hp hchunk)
    have hfreed : .free ⟨c.address, .glib⟩ ∈ deleteProfiles copy := List.mem_flatMap_of_mem hp hfree
    have hzero := h.freed ⟨c.address, .glib⟩
    rw [heapTally_append, heapTally_allocs hlog, heapTally_frees (Frees.profiles copy)] at hzero
    have hpos := List.count_pos_iff.mpr hfreed
    have halloc' : .alloc ⟨c.address, .glib⟩ ∈ log := List.count_pos_iff.mp (by omega)
    have heq := alloc_inj haddresses halloc halloc' rfl
    have horbit := hmade c hbuffer
    rw [heq] at horbit
    cases horbit

theorem FaithfulCopy.plain (hlog : ∀ e ∈ log, ∃ c, e = .alloc c)
    (haddresses : log.filterMap HeapEvent.address? = List.range' next k)
    (hcopies : Copies profileCopying.all ps copy log) (h : FaithfulCopy ps copy log) :
    ∀ p ∈ ps, p.Plain := by
  intro p hp
  have hsame : (ps.map ProfileInfo.copied).reverse = ps.map ProfileInfo.bare := hcopies.same.symm.trans h.same
  have hmem : p.bare ∈ ps.map ProfileInfo.bare := List.mem_map_of_mem hp
  obtain ⟨q, -, hq⟩ := List.mem_map.mp (List.mem_reverse.mp (hsame ▸ hmem))
  obtain ⟨p', hp', hbare⟩ := List.mem_map.mp (h.same ▸ hmem)
  have hq : q.fields.copied = p.fields.bare := congrArg ProfileInfo.fields hq
  have hbare : p'.fields.bare = p.fields.bare := congrArg ProfileInfo.fields hbare
  refine ⟨fun s hs => hcopies.ends s (List.mem_flatMap_of_mem hp hs), fun data hdata => ?_,
    fun data hdata => ?_⟩
  · refine q.fields.codeSetData_copied _ ?_
    rw [hq, ProfileFields.codeSetData_bare]
    exact List.mem_map_of_mem hdata
  · have hmem : data.bare ∈ p.fields.bare.unknowns := by
      rw [ProfileFields.unknowns_bare]
      exact List.mem_map_of_mem hdata
    have hcopied := q.fields.unknowns_copied data.bare (hq ▸ hmem)
    rw [← hbare, ProfileFields.unknowns_bare] at hmem
    obtain ⟨data', hdata', heq⟩ := List.mem_map.mp hmem
    have hoctets : data.bare.octets = [] := by
      have hnone := h.no_data hlog haddresses hcopies hp' hdata'
      rw [← heq]
      exact hnone
    rw [hcopied, OctetData.copied, hoctets]
    rfl

theorem Copies.same_turned (hcopies : Copies profileCopying.all ps copy log) (h : ∀ p ∈ ps, p.Plain) :
    copy.map ProfileInfo.bare = (ps.map ProfileInfo.turned).reverse := by
  have hmap : ps.map ProfileInfo.copied = ps.map ProfileInfo.turned :=
    List.map_congr_left fun p hp => (h p hp).copied_eq
  rw [← hmap]
  exact hcopies.same

theorem Copies.faithful (hlog : ∀ e ∈ log, ∃ c, e = .alloc c)
    (haddresses : log.filterMap HeapEvent.address? = List.range' next k)
    (hcopies : Copies profileCopying.all ps copy log) (hfresh : ∀ c ∈ profilesChunks ps, c.address < next)
    (hplain : ∀ p ∈ ps, p.Plain) (hsame : copy.map ProfileInfo.bare = ps.map ProfileInfo.bare) :
    FaithfulCopy ps copy log := by
  have hown : ∀ p ∈ copy, p.Own := by
    refine hcopies.own fun data hdata => ?_
    obtain ⟨p', hp', hdata⟩ := List.mem_flatMap.mp hdata
    have hmem : p'.bare ∈ copy.map ProfileInfo.bare := List.mem_map_of_mem hp'
    obtain ⟨p, hp, hbare⟩ := List.mem_map.mp (hsame ▸ hmem)
    have hbare : p.fields.bare = p'.fields.bare := congrArg ProfileInfo.fields hbare
    have hdata : data.bare ∈ p'.fields.bare.unknowns := by
      rw [ProfileFields.unknowns_bare]
      exact List.mem_map_of_mem hdata
    rw [← hbare, ProfileFields.unknowns_bare] at hdata
    obtain ⟨data', hdata', heq⟩ := List.mem_map.mp hdata
    have hblank := (hplain p hp).unknowns data' hdata'
    exact congrArg OctetData.octets (heq.symm.trans hblank)
  have hfreed : ∀ c, heapTally c (log ++ deleteProfiles copy) = 0 := by
    intro c
    have hheld : heapTally c log = (profilesChunks copy).count c := hcopies.held c
    rw [heapTally_append, heapTally_deleteProfiles c hown, hheld]
    omega
  refine ⟨hsame, fun host key typeId => ?_, fun c hc c' hc' => ?_, hfreed, fun c hc hmem => ?_⟩
  · rw [← marshalled_bare host key typeId copy, hsame, marshalled_bare]
  · have hle := le_address haddresses (alloc_of_chunk hlog hcopies hc)
    have hlt := hfresh c' hc'
    omega
  · have hzero := hfreed c
    rw [heapTally_append, heapTally_allocs hlog, heapTally_frees (Frees.profiles copy)] at hzero
    have hpos := List.count_pos_iff.mpr hmem
    have hle := le_address haddresses (c := c) (List.count_pos_iff.mp (by omega))
    have hlt := hfresh c hc
    omega

/-- Two profiles, for two sockets. -/
def twoSockets : List ProfileInfo :=
  [⟨⟨0, .glib⟩, .orbitSpecific ⟨some ⟨1, .glib⟩, [97, 0]⟩ 0 none⟩,
    ⟨⟨2, .glib⟩, .orbitSpecific ⟨some ⟨3, .glib⟩, [98, 0]⟩ 0 none⟩]

end Faithful
end ORBit2
