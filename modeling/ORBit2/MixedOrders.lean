import ORBit2.Base.Traversal
import ORBit2.IorRoundTrip

/-! References in which each encapsulation is written in a byte order of its own. -/

set_option autoImplicit false

namespace ORBit2
open Words Traversal

/-! ### What is written -/

/-- A number that a host of one order has written, read in another order. -/
def readAs (outer inner : Endian) (size n : Nat) : Nat :=
  if outer = inner then n else swapWord size n

namespace IopComponent
variable {σ : Type}

/-- The key that a component holds. -/
def ownKey : IopComponent σ → List UInt8
  | .completeObjectKey objectKey => objectKey.getD []
  | _ => []

/-- A component as it is meant. -/
def sent (c : IopComponent CString) : IopComponent Block := c.arrived c.ownKey

/-- A component in a buffer of one order, with its encapsulation in another. -/
def putIn (outer inner : Endian) : IopComponent CString → Put
  | .genericSslSecTrans service =>
      (Put.word outer 4 tagGenericSslSecTrans.toNat).seq
        (.encapsIn outer inner (.string inner service.1))
  | .sslSecTrans targetSupports targetRequires port =>
      (Put.word outer 4 tagSslSecTrans.toNat).seq <|
      .encapsIn outer inner <| (Put.align 4).seq <|
      .append (inner.split 4 targetSupports.toNat ++ inner.split 4 targetRequires.toNat ++
        inner.split 2 port.toNat)
  | .completeObjectKey objectKey =>
      (Put.word outer 4 tagCompleteObjectKey.toNat).seq (marshalObjectKey outer (objectKey.getD []))
  | .codeSets forCharData forWcharData =>
      (Put.word outer 4 tagCodeSets.toNat).seq <|
      .encapsIn outer inner ((forCharData.marshal inner).seq (forWcharData.marshal inner))
  | .unknown componentType data =>
      (Put.word outer 4 componentType.1.toNat).seq <|
      (Put.append (outer.split 4 data.length)).seq (.append data)

/-- A component as it is read. The SSL components are read in the order of the buffer around them;
the length of a service may then be too large. -/
def received (outer inner : Endian) : IopComponent CString → Option (IopComponent Block)
  | .genericSslSecTrans service =>
      let len := readAs outer inner 4 (service.1.length + 1)
      if service.1.length + 1 < len then none
      else
        some (.genericSslSecTrans (if len = 0 then none else some ((service.1 ++ [0]).take len)))
  | .sslSecTrans targetSupports targetRequires port =>
      some (.sslSecTrans (UInt32.ofNat (readAs outer inner 4 targetSupports.toNat))
        (UInt32.ofNat (readAs outer inner 4 targetRequires.toNat))
        (UInt16.ofNat (readAs outer inner 2 port.toNat)))
  | c => some c.sent

/-- The orders of the two buffers do not differ, or it does not matter that they do. -/
def SameInBoth (outer inner : Endian) : IopComponent CString → Prop
  | .genericSslSecTrans service =>
      outer = inner ∨ swapWord 4 (service.1.length + 1) = service.1.length + 1
  | .sslSecTrans targetSupports targetRequires port =>
      outer = inner ∨ swapWord 4 targetSupports.toNat = targetSupports.toNat ∧
        swapWord 4 targetRequires.toNat = targetRequires.toNat ∧
        swapWord 2 port.toNat = port.toNat
  | _ => True

end IopComponent

/-- Components with the orders of their encapsulations. -/
def inOrders (order : Nat → Endian) (components : List (IopComponent CString)) :
    List (Endian × IopComponent CString) :=
  components.mapIdx fun i c => (order i, c)

/-- A profile, the order of its encapsulation, and those of the encapsulations in it. -/
structure OrderedProfile where
  profile : IopProfile CString
  order : Endian
  componentOrder : Nat → Endian

def putComponents (outer : Endian) (components : List (Endian × IopComponent CString)) : Put :=
  (Put.word outer 4 components.length).seq (.all (components.map fun x => x.2.putIn outer x.1))

namespace IopProfile
variable {σ : Type}

def components : IopProfile σ → List (IopComponent σ)
  | .internetIop _ _ _ _ components | .genericIop _ _ _ _ components
  | .multipleComponents components => components
  | .orbitSpecific _ _ _ | .unknown _ _ => []

/-- A profile as it is meant. -/
def sent : IopProfile CString → IopProfile Block
  | .internetIop iiopVersion host port objectKey components =>
      .internetIop iiopVersion host.block port (some (objectKey.getD []))
        (components.map IopComponent.sent)
  | .genericIop iiopVersion proto host service components =>
      .genericIop iiopVersion proto.block host.block service.block
        (components.map IopComponent.sent)
  | .orbitSpecific unixSockPath ipv6Port objectKey =>
      .orbitSpecific unixSockPath.block ipv6Port (some (objectKey.getD []))
  | .multipleComponents components => .multipleComponents (components.map IopComponent.sent)
  | .unknown profileType data => .unknown profileType data

end IopProfile

namespace OrderedProfile

def components (p : OrderedProfile) : List (Endian × IopComponent CString) :=
  inOrders p.componentOrder p.profile.components

/-- A profile in a buffer of some order. -/
def put (outer : Endian) (p : OrderedProfile) : Put :=
  match p.profile with
  | .internetIop iiopVersion hostName port objectKey _ =>
      (Put.word outer 4 tagInternetIop.toNat).seq <|
      .encapsIn outer p.order <| (Put.append iiopVersion.ids).seq <|
      (Put.string p.order hostName.1).seq <| (Put.word p.order 2 port.toNat).seq <|
      (marshalObjectKey p.order (objectKey.getD [])).seq <| putComponents p.order p.components
  | .orbitSpecific unixSockPath ipv6Port objectKey =>
      (Put.word outer 4 tagOrbitSpecific.toNat).seq <|
      .encapsIn outer p.order <| (Put.append [1, 2]).seq <| (Put.string p.order unixSockPath.1).seq <|
      (Put.word p.order 2 ipv6Port.toNat).seq (marshalObjectKey p.order (objectKey.getD []))
  | .genericIop iiopVersion proto hostName service _ =>
      (Put.word outer 4 tagGenericIop.toNat).seq <|
      .encapsIn outer p.order <| (Put.append iiopVersion.ids).seq <|
      (Put.string p.order proto.1).seq <| (Put.string p.order hostName.1).seq <|
      (Put.string p.order service.1).seq <| putComponents p.order p.components
  | .multipleComponents _ =>
      (Put.word outer 4 tagMultipleComponents.toNat).seq <|
      .encapsIn outer p.order (putComponents p.order p.components)
  | .unknown profileType data =>
      (Put.word outer 4 profileType.1.toNat).seq (.counted outer (.append data))

/-- A profile as it is read. -/
def received (p : OrderedProfile) : Option (IopProfile Block) :=
  let components := p.components.mapM fun x => x.2.received p.order x.1
  match p.profile with
  | .internetIop iiopVersion host port objectKey _ =>
      components.map fun cs =>
        .internetIop iiopVersion host.block port (some (objectKey.getD [])) cs
  | .genericIop iiopVersion proto host service _ =>
      components.map fun cs => .genericIop iiopVersion proto.block host.block service.block cs
  | .multipleComponents _ => components.map .multipleComponents
  | profile => some profile.sent

/-- The orders of the profile and its components go together. -/
def SameInBoth (p : OrderedProfile) : Prop := ∀ x ∈ p.components, x.2.SameInBoth p.order x.1

end OrderedProfile

/-- A reference in a message of some order. -/
def putReference (outer : Endian) (typeId : CString) (profiles : List OrderedProfile) : Put :=
  (Put.string outer typeId.1).seq <| (Put.word outer 4 profiles.length).seq <|
  .all (profiles.map (OrderedProfile.put outer))

/-! ### Reading in another order -/

theorem split_readAs (outer inner : Endian) (size n : Nat) :
    inner.split size n = outer.split size (readAs outer inner size n) := by
  by_cases h : outer = inner
  · rw [readAs, if_pos h, h]
  · rw [readAs, if_neg h]
    have hrev : splitLE size (swapWord size n) = (splitLE size n).reverse := by
      have hjoin := splitLE_joinLE (splitLE size n).reverse
      rwa [List.length_reverse, splitLE_length] at hjoin
    cases outer <;> cases inner <;> simp_all [Endian.split]

theorem readAs_lt (outer inner : Endian) {size n : Nat} (hn : n < 256 ^ size) :
    readAs outer inner size n < 256 ^ size := by
  rw [readAs]
  split
  · exact hn
  · exact swapWord_lt size n

theorem readAs_eq_iff {outer inner : Endian} {size n : Nat} :
    readAs outer inner size n = n ↔ outer = inner ∨ swapWord size n = n := by
  rw [readAs]
  split
  · next h => simp [h]
  · next h => simp [h]

/-- A host reads in its order what was written in another. -/
theorem word_readAs (outer inner : Endian) (n : Nat) :
    Put.word inner 4 n = Put.word outer 4 (readAs outer inner 4 n) := by
  rw [Put.word, Put.word, split_readAs outer inner]

/-! ### Components -/

namespace EndsIn

/-- More bytes are asked for than there are, or some of them are left. -/
theorem memdup {e : Endian} (mem : List UInt8) (n : Nat) :
    EndsIn e (.append mem) (Dec.memdup n)
      (if mem.length < n then none else some (if n = 0 then none else some (mem.take n))) := by
  intro f b _ hw hend _
  have hlen : f.data.length = b.pos + mem.length := by
    rw [hend, PlainBuffer.put_append, PlainBuffer.append_pos]
  by_cases h : mem.length < n
  · rw [if_pos h]
    have hneed : Dec.need n (f.at b) = .error .fail := by
      rw [Dec.need, if_pos]
      simp only [Frame.at_data, Frame.at_cur]
      omega
    exact Dec.bind_error (Dec.bind_error hneed)
  · rw [if_neg h]
    have hsplit : b.append mem = (b.append (mem.take n)).append (mem.drop n) := by
      simp [PlainBuffer.append]
    rw [PlainBuffer.put_append, hsplit] at hw
    have htake : (mem.take n).length = n := by
      rw [List.length_take]
      omega
    have hread := f.octets_at (hw.mono (PlainBuffer.grows_append _ _))
    rw [htake] at hread
    exact ⟨_, by rw [Dec.memdup, Dec.bind_ok hread, Dec.pure_apply]⟩

end EndsIn

namespace Arrives
variable {outer inner : Endian}

theorem tag {α : Type} {m : UInt32 → Dec α} {r : Option α} (type : UInt32) {w : Put}
    (h : Arrives outer w (m type) r) :
    Arrives outer ((Put.word outer 4 type.toNat).seq w)
      (do let n ← Dec.alignedWord 4; m (UInt32.ofNat n)) r := by
  have hword : Arrives outer (.word outer 4 type.toNat) (Dec.alignedWord 4) (some type.toNat) :=
    ReadsBack.word (by decide) type.toNat_lt
  refine hword.bind (q := fun _ => r) fun n hn => ?_
  cases hn
  rwa [UInt32.ofNat_toNat]

/-- `IOP_TAG_GENERIC_SSL_SEC_TRANS_demarshal`. -/
theorem service (service : CString) :
    Arrives outer (.encapsIn outer inner (.string inner service.1))
      (do let service ← Dec.encaps false Dec.stringBlock; return .genericSslSecTrans service)
      ((IopComponent.genericSslSecTrans service).received outer inner) := by
  have hlen : (service.1 ++ [0]).length = service.1.length + 1 := List.length_append
  refine bounded (n := service.1.length + 1) ?_ fun hlt => ?_
  · intro pos
    simp only [Put.encapsIn, Put.counted, Put.seq, Put.string, Put.append, List.length_append,
      List.length_singleton]
    omega
  · have hword : ReadsBack outer (.word inner 4 (service.1.length + 1)) (Dec.alignedWord 4)
        (readAs outer inner 4 (service.1.length + 1)) := by
      rw [word_readAs outer inner]
      exact ReadsBack.word (by decide) (readAs_lt outer inner (by omega))
    have hread := (@EndsIn.encapsIn _ outer inner _ _ _ false
      (hword.bindEndsIn (EndsIn.memdup (service.1 ++ [0]) _))).map IopComponent.genericSslSecTrans
    rw [hlen] at hread
    have hreceived : (IopComponent.genericSslSecTrans service).received outer inner =
        Option.map IopComponent.genericSslSecTrans
          (if service.1.length + 1 < readAs outer inner 4 (service.1.length + 1) then none
          else some (if readAs outer inner 4 (service.1.length + 1) = 0 then none
            else some ((service.1 ++ [0]).take (readAs outer inner 4 (service.1.length + 1))))) := by
      simp only [IopComponent.received]
      split <;> rfl
    rw [hreceived]
    exact hread

theorem ulong_readAs (n : UInt32) :
    ReadsBack outer (.append (inner.split 4 n.toNat)) Dec.ulong
      (UInt32.ofNat (readAs outer inner 4 n.toNat)) := by
  have hlt : readAs outer inner 4 n.toNat < 256 ^ 4 := readAs_lt outer inner n.toNat_lt
  have h := ReadsBack.ulong (e := outer) (UInt32.ofNat (readAs outer inner 4 n.toNat))
  rwa [UInt32.toNat_ofNat_of_lt' hlt, ← split_readAs] at h

theorem ushort_readAs (n : UInt16) :
    ReadsBack outer (.append (inner.split 2 n.toNat)) Dec.ushort
      (UInt16.ofNat (readAs outer inner 2 n.toNat)) := by
  have hlt : readAs outer inner 2 n.toNat < 256 ^ 2 := readAs_lt outer inner n.toNat_lt
  have h := ReadsBack.ushort (e := outer) (UInt16.ofNat (readAs outer inner 2 n.toNat))
  rwa [UInt16.toNat_ofNat_of_lt' hlt, ← split_readAs] at h

theorem component (c : IopComponent CString) :
    Arrives outer (c.putIn outer inner) demarshalComponent (c.received outer inner) := by
  cases c with
  | unknown componentType data => exact @ReadsBack.component outer [] (.unknown componentType data)
  | completeObjectKey objectKey =>
    exact @ReadsBack.component outer (objectKey.getD []) (.completeObjectKey objectKey)
  | genericSslSecTrans str => exact tag _ (service str)
  | sslSecTrans targetSupports targetRequires port =>
    refine tag _ (EndsIn.encapsIn false (ReadsBack.within (ReadsBack.bind
      (ReadsBack.align (by decide)) (ReadsBack.need ?_ ?_))).endsIn)
    · intro pos
      simp [Put.append]
    · rw [Put.append_append, Put.append_append, Put.seq_assoc]
      exact (ulong_readAs targetSupports).bind ((ulong_readAs targetRequires).bind
        ((ushort_readAs port).map _))
  | codeSets forCharData forWcharData =>
    exact tag _ (EndsIn.encapsIn true ((ReadsBack.codeSet forCharData).bind
      ((ReadsBack.codeSet forWcharData).map _)).within.endsIn)

theorem components (cs : List (Endian × IopComponent CString)) :
    Arrives outer (putComponents outer cs) demarshalComponents
      (cs.mapM fun x => x.2.received outer x.1) := by
  have hcount : ∀ pos, cs.length ≤
      (Put.all (cs.map fun x => x.2.putIn outer x.1) pos).length := by
    intro pos
    refine (Put.le_length_all ?_ pos).trans' (by rw [List.length_map])
    intro w hw pos
    obtain ⟨⟨inner, c⟩, _, rfl⟩ := List.mem_map.1 hw
    cases c <;> simp [IopComponent.putIn, Put.seq, Put.word, Put.append]
  refine bounded (n := cs.length) ?_ fun hlt => ?_
  · intro pos
    rw [putComponents, Put.seq, List.length_append]
    exact (hcount _).trans (Nat.le_add_left _ _)
  · have hword : Arrives outer (.word outer 4 cs.length) (Dec.alignedWord 4) (some cs.length) :=
      ReadsBack.word (by decide) (by omega)
    refine hword.bind (q := fun _ => cs.mapM fun x => x.2.received outer x.1) fun n hn => ?_
    cases hn
    exact all cs fun x _ => component x.2

theorem profile (p : OrderedProfile) (hp : p.profile.Sendable) :
    Arrives outer (p.put outer) demarshalProfile p.received := by
  obtain ⟨profile, order, componentOrder⟩ := p
  cases profile with
  | unknown profileType data => exact @ReadsBack.profile outer [] (.unknown profileType data) trivial
  | internetIop iiopVersion host n objectKey cs =>
    refine tag _ (EndsIn.encapsIn true ((ReadsBack.version iiopVersion).bindEndsIn
      ((ReadsBack.string host.1).bindEndsIn ((ReadsBack.port n).bindEndsIn
        ((ReadsBack.counted (objectKey.getD [])).bindEndsIn ?_)))))
    cases iiopVersion with
    | v1_0 =>
      have hnil : cs = [] := hp
      subst hnil
      exact fun _ _ _ _ _ _ => ⟨_, rfl⟩
    | v1_1 | v1_2 => exact ((components _).map _).endsIn
  | genericIop iiopVersion proto host service cs =>
    exact tag _ (EndsIn.encapsIn true ((ReadsBack.version iiopVersion).bindEndsIn
      ((ReadsBack.string proto.1).bindEndsIn ((ReadsBack.string host.1).bindEndsIn
        ((ReadsBack.string service.1).bindEndsIn ((components _).map _).endsIn)))))
  | orbitSpecific unixSockPath ipv6Port objectKey =>
    refine tag _ (EndsIn.encapsIn true (ReadsBack.within (ReadsBack.need ?_
      ((ReadsBack.skip [1, 2]).bind ((ReadsBack.string unixSockPath.1).bind
        ((ReadsBack.port ipv6Port).bind ((ReadsBack.counted (objectKey.getD [])).map _)))))).endsIn)
    intro pos
    simp [Put.seq, Put.append]
  | multipleComponents cs => exact tag _ ((EndsIn.encapsIn true (components _).endsIn).map _)

end Arrives

/-! ### References -/

/-- The reference that was meant, whatever follows it in the message. -/
def Recovered (typeId : CString) (profiles : List OrderedProfile)
    (result : Except Stop (Ior × RecvCursor)) : Prop :=
  ∃ ior c, result = .ok (ior, c) ∧
    if typeId.1 = [] ∧ profiles = [] then ior = none
    else ∃ behind, ior =
      some (typeId.1 ++ 0 :: behind, profiles.map fun p => p.profile.sent)

/-- A type id, and what is read behind it. -/
def iorBehind (typeId : List UInt8) (ps : List OrderedProfile) : Option Ior :=
  if typeId.headD 0 = 0 ∧ ps.length = 0 then some none
  else (ps.mapM OrderedProfile.received).map fun profiles => some (typeId, profiles)

/-- The profiles behind a type id. -/
theorem Arrives.profiles {e : Endian} {ps : List OrderedProfile}
    (hsend : ∀ p ∈ ps, p.profile.Sendable) (typeId : List UInt8) :
    Arrives e ((Put.word e 4 ps.length).seq (.all (ps.map (OrderedProfile.put e))))
      (do
        let numProfiles ← Dec.alignedWord 4
        if typeId.headD 0 = 0 ∧ numProfiles = 0 then return none
        else
          let profiles ← demarshalProfile.times numProfiles
          return some (typeId, profiles))
      (iorBehind typeId ps) := by
  have hcount : ∀ pos, ps.length ≤ (Put.all (ps.map (OrderedProfile.put e)) pos).length := by
    intro pos
    refine (Put.le_length_all ?_ pos).trans' (by rw [List.length_map])
    intro w hw pos
    obtain ⟨⟨profile, order, componentOrder⟩, _, rfl⟩ := List.mem_map.1 hw
    cases profile <;> simp [OrderedProfile.put, Put.seq, Put.word, Put.append]
  refine bounded (n := ps.length) ?_ fun hlt => ?_
  · intro pos
    rw [Put.seq, List.length_append]
    exact (hcount _).trans (Nat.le_add_left _ _)
  · have hword : Arrives e (.word e 4 ps.length) (Dec.alignedWord 4) (some ps.length) :=
      ReadsBack.word (by decide) (by omega)
    refine hword.bind (q := fun _ => iorBehind typeId ps) fun n hn => ?_
    cases hn
    have hall := all ps fun p hp => @profile e p (hsend p hp)
    rw [iorBehind]
    by_cases h : typeId.headD 0 = 0 ∧ ps.length = 0
    · rw [if_pos h, if_pos h, List.length_eq_zero_iff.1 h.2]
      exact ReadsBack.pure none
    · rw [if_neg h, if_neg h]
      exact hall.map fun profiles => some (typeId, profiles)

theorem typeId_headD (typeId : CString) (behind : List UInt8) :
    (typeId.1 ++ 0 :: behind).headD 0 = 0 ↔ typeId.1 = [] := by
  obtain ⟨str, hstr⟩ := typeId
  cases str with
  | nil => simp
  | cons c str =>
    have hc : c ≠ 0 := fun h => hstr (h ▸ List.mem_cons_self)
    simpa using hc

/-- What `ORBit_demarshal_IOR` makes of a reference in any orders. -/
theorem demarshalIOR_putReference {typeId : CString} {ps : List OrderedProfile}
    (hsend : ∀ p ∈ ps, p.profile.Sendable) (f : Frame) (b : PlainBuffer)
    (hw : (b.put (putReference f.sender typeId ps)).Within f.data)
    (hlt : (b.put (putReference f.sender typeId ps)).pos < 2^32) :
    ∃ behind,
      (∀ ior, iorBehind (typeId.1 ++ 0 :: behind) ps = some ior →
        demarshalIOR (f.at b) = .ok (ior, f.at (b.put (putReference f.sender typeId ps)))) ∧
      (iorBehind (typeId.1 ++ 0 :: behind) ps = none →
        demarshalIOR (f.at b) = .error .fail) := by
  have hsplit : b.put (putReference f.sender typeId ps) =
      ((b.put (.word f.sender 4 (typeId.1.length + 1))).append (typeId.1 ++ [0])).put
        ((Put.word f.sender 4 ps.length).seq
          (.all (ps.map (OrderedProfile.put f.sender)))) := by
    rw [putReference, PlainBuffer.put_seq b, Put.string, PlainBuffer.put_seq b]
    rfl
  rw [hsplit] at hw hlt ⊢
  generalize hb₁ : b.put (.word f.sender 4 (typeId.1.length + 1)) = b₁ at hw hlt ⊢
  have hmem : (b₁.append (typeId.1 ++ [0])).Within f.data := hw.mono (PlainBuffer.grows_put _ _)
  have hpos := PlainBuffer.put_pos (b₁.append (typeId.1 ++ [0]))
    ((Put.word f.sender 4 ps.length).seq (.all (ps.map (OrderedProfile.put f.sender))))
  have hpos₁ := PlainBuffer.append_pos b₁ (typeId.1 ++ [0])
  have hlen : (typeId.1 ++ [0]).length = typeId.1.length + 1 := List.length_append
  obtain ⟨behind, hdrop⟩ := hmem.drop
  refine ⟨behind, ?_⟩
  have hword := @ReadsBack.word f.sender 4 (typeId.1.length + 1) (by decide) (by omega) f b rfl
    (by rw [hb₁]; exact hmem.mono (PlainBuffer.grows_append _ _)) (by rw [hb₁]; omega)
  have hneed := f.need_at hmem
  have hadvance := f.advance_at (b := b₁) (typeId.1 ++ [0])
  rw [hlen] at hneed hadvance
  rw [hb₁] at hword
  have htypeId : f.data.drop b₁.pos = typeId.1 ++ 0 :: behind := by
    rw [hdrop, List.append_assoc]
    rfl
  have hread := @Arrives.profiles f.sender ps hsend (typeId.1 ++ 0 :: behind) f
    (b₁.append (typeId.1 ++ [0])) rfl hw hlt
  have hpointer : Dec.pointer (f.at b₁) = .ok (typeId.1 ++ 0 :: behind, f.at b₁) := by
    rw [← htypeId]
    rfl
  rw [demarshalIOR, Dec.bind_ok hword, Dec.bind_ok hneed, Dec.bind_ok hpointer,
    Dec.bind_ok hadvance]
  refine ⟨?_, ?_⟩
  · intro ior hior
    rw [hior] at hread
    exact hread
  · intro hnone
    rw [hnone] at hread
    exact hread

/-! ### When the orders do not matter -/

theorem inOrders_map_snd (order : Nat → Endian) (components : List (IopComponent CString)) :
    (inOrders order components).map Prod.snd = components := by
  apply List.ext_getElem?
  intro i
  simp [inOrders, List.getElem?_mapIdx]

theorem IopComponent.received_eq_sent_iff {outer inner : Endian} {c : IopComponent CString} :
    c.received outer inner = some c.sent ↔ c.SameInBoth outer inner := by
  cases c with
  | genericSslSecTrans service =>
    have hlen : (service.1 ++ [0]).length = service.1.length + 1 := List.length_append
    rw [received, SameInBoth, ← readAs_eq_iff]
    generalize readAs outer inner 4 (service.1.length + 1) = n
    constructor
    · intro h
      split at h
      · cases h
      · split at h
        · cases h
        · have htake : (service.1 ++ [0]).take n = service.1 ++ [0] := by
            simpa [sent, arrived, CString.block] using h
          have hle := congrArg List.length htake
          rw [List.length_take, hlen] at hle
          omega
    · rintro rfl
      rw [if_neg (by omega), if_neg (by omega), ← hlen, List.take_length]
      rfl
  | sslSecTrans targetSupports targetRequires port =>
    have hword {n : UInt32} : UInt32.ofNat (readAs outer inner 4 n.toNat) = n ↔
        readAs outer inner 4 n.toNat = n.toNat := by
      rw [← UInt32.toNat_inj, UInt32.toNat_ofNat_of_lt' (readAs_lt outer inner n.toNat_lt)]
    have hshort : UInt16.ofNat (readAs outer inner 2 port.toNat) = port ↔
        readAs outer inner 2 port.toNat = port.toNat := by
      rw [← UInt16.toNat_inj, UInt16.toNat_ofNat_of_lt' (readAs_lt outer inner port.toNat_lt)]
    rw [received, SameInBoth, sent, arrived, Option.some.injEq, sslSecTrans.injEq, hword, hword,
      hshort, readAs_eq_iff, readAs_eq_iff, readAs_eq_iff]
    by_cases h : outer = inner <;> simp [h]
  | completeObjectKey objectKey => simp [received, SameInBoth]
  | codeSets forCharData forWcharData => simp [received, SameInBoth]
  | unknown componentType data => simp [received, SameInBoth]

theorem OrderedProfile.received_eq_sent_iff {p : OrderedProfile} :
    p.received = some p.profile.sent ↔ p.SameInBoth := by
  obtain ⟨profile, order, componentOrder⟩ := p
  have hcomponents (cs : List (IopComponent CString)) :
      (inOrders componentOrder cs).mapM (fun x => x.2.received order x.1) =
          some (cs.map IopComponent.sent) ↔
        ∀ x ∈ inOrders componentOrder cs, x.2.SameInBoth order x.1 := by
    have hmap : cs.map IopComponent.sent =
        (inOrders componentOrder cs).map fun x => x.2.sent := by
      have hsnd := congrArg (List.map IopComponent.sent) (inOrders_map_snd componentOrder cs)
      rw [List.map_map] at hsnd
      exact hsnd.symm
    rw [hmap, mapM_eq_some_map_iff]
    exact forall₂_congr fun x _ => IopComponent.received_eq_sent_iff
  cases profile with
  | internetIop iiopVersion host n objectKey cs =>
    rw [SameInBoth, components, IopProfile.components, ← hcomponents]
    simp [received, components, IopProfile.components, IopProfile.sent]
  | genericIop iiopVersion proto host service cs =>
    rw [SameInBoth, components, IopProfile.components, ← hcomponents]
    simp [received, components, IopProfile.components, IopProfile.sent]
  | multipleComponents cs =>
    rw [SameInBoth, components, IopProfile.components, ← hcomponents]
    simp [received, components, IopProfile.components, IopProfile.sent]
  | orbitSpecific unixSockPath ipv6Port objectKey =>
    simp [received, SameInBoth, components, IopProfile.components, inOrders]
  | unknown profileType data =>
    simp [received, SameInBoth, components, IopProfile.components, inOrders]

/-- A reference is recovered if each profile is. -/
theorem recovered_iff_received {typeId : CString} {ps : List OrderedProfile}
    (hsend : ∀ p ∈ ps, p.profile.Sendable) (f : Frame) (b : PlainBuffer)
    (hw : (b.put (putReference f.sender typeId ps)).Within f.data)
    (hlt : (b.put (putReference f.sender typeId ps)).pos < 2^32) :
    Recovered typeId ps (demarshalIOR (f.at b)) ↔
      ps.mapM OrderedProfile.received = some (ps.map fun p => p.profile.sent) := by
  obtain ⟨behind, hsome, hnone⟩ := demarshalIOR_putReference hsend f b hw hlt
  have hnil : (typeId.1 ++ 0 :: behind).headD 0 = 0 ∧ ps.length = 0 ↔
      typeId.1 = [] ∧ ps = [] := by
    rw [typeId_headD, List.length_eq_zero_iff]
  by_cases h : typeId.1 = [] ∧ ps = []
  · have hread := hsome none (if_pos (hnil.2 h))
    simp only [Recovered, if_pos h]
    rw [h.2]
    exact ⟨fun _ => rfl, fun _ => ⟨_, _, hread, rfl⟩⟩
  · have hior : iorBehind (typeId.1 ++ 0 :: behind) ps =
        (ps.mapM OrderedProfile.received).map fun profiles =>
          some (typeId.1 ++ 0 :: behind, profiles) := if_neg fun hn => h (hnil.1 hn)
    simp only [Recovered, if_neg h]
    cases hps : ps.mapM OrderedProfile.received with
    | none =>
      rw [hps] at hior
      rw [hnone hior]
      simp
    | some profiles =>
      rw [hps] at hior
      have hread := hsome _ hior
      constructor
      · rintro ⟨ior, c, hok, behind', rfl⟩
        rw [hread] at hok
        simp only [Except.ok.injEq, Prod.mk.injEq, Option.some.injEq] at hok
        rw [hok.1.2]
      · intro hmap
        cases hmap
        exact ⟨_, _, hread, behind, rfl⟩

/-- A reference is recovered exactly where no SSL component has to be read in the order of its own
encapsulation. -/
theorem mixedOrders_recovered_iff {typeId : CString} {ps : List OrderedProfile}
    (hsend : ∀ p ∈ ps, p.profile.Sendable) (f : Frame) (b : PlainBuffer)
    (hw : (b.put (putReference f.sender typeId ps)).Within f.data)
    (hlt : (b.put (putReference f.sender typeId ps)).pos < 2^32) :
    Recovered typeId ps (demarshalIOR (f.at b)) ↔ ∀ p ∈ ps, p.SameInBoth := by
  rw [recovered_iff_received hsend f b hw hlt, mapM_eq_some_map_iff]
  exact forall₂_congr fun p _ => OrderedProfile.received_eq_sent_iff

/-- A message that holds nothing but a reference. -/
def messageOf (host sender : Endian) (typeId : CString) (ps : List OrderedProfile) : Frame :=
  ⟨0, host, sender, putReference sender typeId ps 0, ⟨0, rfl⟩⟩

def emptyBuffer : PlainBuffer := ⟨0, []⟩

theorem messageOf_within (host sender : Endian) (typeId : CString) (ps : List OrderedProfile) :
    (emptyBuffer.put (putReference sender typeId ps)).Within
      (messageOf host sender typeId ps).data :=
  ⟨[], [], rfl, by simp [messageOf, emptyBuffer, PlainBuffer.put, PlainBuffer.append, PlainBuffer.pos]⟩

/-- Three orders in one message. -/
def mixedProfiles : List OrderedProfile :=
  [⟨.orbitSpecific ⟨[0x2f], by decide⟩ 7 (some [1]), .little, fun _ => .big⟩,
    ⟨.multipleComponents [.codeSets ⟨1, [2]⟩ ⟨3, []⟩, .sslSecTrans 0 0 0x0101], .little,
      fun _ => .big⟩]

set_option maxRecDepth 8192 in
theorem mixedOrders_mixedProfiles :
    Recovered ⟨[0x41], by decide⟩ mixedProfiles
      (demarshalIOR ((messageOf .little .big ⟨[0x41], by decide⟩ mixedProfiles).at emptyBuffer)) := by
  refine (mixedOrders_recovered_iff ?_ _ _ (messageOf_within ..) (by decide)).2 ?_
  · intro p hp
    rcases List.mem_pair.1 hp with rfl | rfl <;> trivial
  · intro p hp
    rcases List.mem_pair.1 hp with rfl | rfl
    · nofun
    · intro x hx
      rcases List.mem_pair.1 hx with rfl | rfl
      · trivial
      · exact .inr ⟨rfl, rfl, rfl⟩

/-- A port for SSL in a component of the other order. -/
def swappedPort : List OrderedProfile :=
  [⟨.multipleComponents [.sslSecTrans 0 0 443], .little, fun _ => .big⟩]

set_option maxRecDepth 8192 in
theorem swappedPort_not_recovered :
    ¬ Recovered ⟨[0x41], by decide⟩ swappedPort
      (demarshalIOR ((messageOf .little .little ⟨[0x41], by decide⟩ swappedPort).at emptyBuffer)) := by
  rw [recovered_iff_received ?_ _ _ (messageOf_within ..) (by decide)]
  · intro h
    have hp := mapM_eq_some_map_iff.1 h _ List.mem_cons_self
    have hsame := OrderedProfile.received_eq_sent_iff.1 hp (.big, .sslSecTrans 0 0 443)
      List.mem_cons_self
    revert hsame
    simp only [IopComponent.SameInBoth]
    decide
  · intro p hp
    rw [List.mem_singleton.1 hp]
    trivial

end ORBit2
