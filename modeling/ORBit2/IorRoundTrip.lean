import ORBit2.IopProfiles

/-! An IOR that a host has written is read back by any other: the type id, the object key, and
the profiles with their components. -/

set_option autoImplicit false

namespace ORBit2
open Words

/-! ### What arrives -/

/-- A string as it is copied out of a message, with its end. -/
def CString.block (str : CString) : Block := some (str.1 ++ [0])

/-- A component as the receiver has it; each complete object key is the key of the object. -/
def IopComponent.arrived (key : List UInt8) : IopComponent CString → IopComponent Block
  | .genericSslSecTrans service => .genericSslSecTrans service.block
  | .sslSecTrans targetSupports targetRequires port => .sslSecTrans targetSupports targetRequires port
  | .completeObjectKey _ => .completeObjectKey (some key)
  | .codeSets forCharData forWcharData => .codeSets forCharData forWcharData
  | .unknown componentType data => .unknown componentType data

/-- A profile as the receiver has it. -/
def IopProfile.arrived (key : List UInt8) : IopProfile CString → IopProfile Block
  | .internetIop iiopVersion host port _ components =>
      .internetIop iiopVersion host.block port (some key) (components.map (IopComponent.arrived key))
  | .genericIop iiopVersion proto host service components =>
      .genericIop iiopVersion proto.block host.block service.block
        (components.map (IopComponent.arrived key))
  | .orbitSpecific unixSockPath ipv6Port _ => .orbitSpecific unixSockPath.block ipv6Port (some key)
  | .multipleComponents components => .multipleComponents (components.map (IopComponent.arrived key))
  | .unknown profileType data => .unknown profileType data

/-- An IIOP profile of version 1.0 has no components. -/
def IopProfile.Sendable : IopProfile CString → Prop
  | .internetIop .v1_0 _ _ _ components => components = []
  | _ => True

/-! ### Numbers and keys -/

namespace ReadsBack
variable {α : Type} {e : Endian} {a : α}

theorem rawWord {size n : Nat} (hn : n < 256 ^ size) :
    ReadsBack e (.append (e.split size n)) (Dec.word size) n := by
  intro f b hs hw _
  rw [PlainBuffer.put_append, ← hs] at hw ⊢
  have hadvance := f.advance_at (b := b) (f.sender.split size n)
  rw [Endian.split_length] at hadvance
  rw [Dec.word, Dec.bind_ok (f.peek_at hn hw), Dec.bind_ok hadvance, Dec.pure_apply]

theorem ulong (n : UInt32) : ReadsBack e (.append (e.split 4 n.toNat)) Dec.ulong n := by
  have h := map UInt32.ofNat (@rawWord e 4 n.toNat n.toNat_lt)
  rwa [UInt32.ofNat_toNat] at h

theorem ushort (n : UInt16) : ReadsBack e (.append (e.split 2 n.toNat)) Dec.ushort n := by
  have h := map UInt16.ofNat (@rawWord e 2 n.toNat n.toNat_lt)
  rwa [UInt16.ofNat_toNat] at h

theorem port (n : UInt16) : ReadsBack e (.word e 2 n.toNat) Dec.port n := by
  refine bind (align (by decide)) (need ?_ (ushort n))
  intro pos
  simp [Put.append]

theorem skip (mem : List UInt8) : ReadsBack e (.append mem) (Dec.advance mem.length) () := by
  intro f b _ _ _
  exact f.advance_at mem

theorem counted (mem : List UInt8) :
    ReadsBack e ((Put.word e 4 mem.length).seq (.append mem)) Dec.counted mem := by
  refine bounded (n := mem.length) ?_ fun hlt => bind (word (by decide) (by omega)) (octets mem)
  intro pos
  simp only [Put.seq, Put.append, List.length_append]
  omega

/-- Some bytes, read one by one as an unknown number. -/
theorem codeSet (component : CodeSetComponent) :
    ReadsBack e (component.marshal e) demarshalCodeSet component := by
  obtain ⟨native, sets⟩ := component
  have hwriter : CodeSetComponent.marshal e ⟨native, sets⟩ =
      (Put.align 4).seq ((Put.append (e.split 4 native.toNat)).seq
        ((Put.append (e.split 4 sets.length)).seq
          (.all (sets.map fun id => .append (e.split 4 id.toNat))))) := by
    rw [CodeSetComponent.marshal, Put.all_append, Put.word_seq_word]
    exact Put.seq_assoc _ _ _
  rw [hwriter]
  refine bind (align (by decide)) (need ?_ (bind (ulong native) ?_))
  · intro pos
    simp only [Put.seq, Put.append, List.length_append, Endian.split_length]
    omega
  have hbytes : ∀ pos, sets.length * 4 ≤
      (Put.all (sets.map fun id => .append (e.split 4 id.toNat)) pos).length := by
    intro pos
    rw [Put.all_append, Put.append, List.length_flatMap]
    simp
  refine bounded (n := sets.length) ?_ fun hlt => bind (rawWord (by omega)) (need ?_ ?_)
  · intro pos
    simp only [Put.seq, Put.append, List.length_append]
    have h := hbytes (pos + (e.split 4 sets.length).length)
    omega
  · intro pos
    exact (Nat.mod_le _ _).trans (hbytes pos)
  · have hall := map (⟨native, ·⟩ : List UInt32 → CodeSetComponent) (all sets fun id _ => @ulong e id)
    rw [List.map_id'] at hall
    exact hall

/-! ### Components and profiles -/

variable {key : List UInt8}

theorem tag {m : UInt32 → Dec α} (type : UInt32) {w : Put} (h : ReadsBack e w (m type) a) :
    ReadsBack e ((Put.word e 4 type.toNat).seq w)
      (do let n ← Dec.alignedWord 4; m (UInt32.ofNat n)) a := by
  refine bind (word (by decide) type.toNat_lt) ?_
  rwa [UInt32.ofNat_toNat]

theorem component (c : IopComponent CString) :
    ReadsBack e (c.marshal e key) demarshalComponent (c.arrived key) := by
  cases c with
  | unknown componentType data =>
    have hwriter : (IopComponent.unknown componentType data).marshal e key =
        (Put.word e 4 componentType.1.toNat).seq ((Put.word e 4 data.length).seq (.append data)) :=
      (Put.word_seq_word e _ _ _).symm
    rw [hwriter]
    refine tag componentType.1 ?_
    rw [demarshalComponentOf, dif_pos componentType.2]
    exact map _ (counted data)
  | completeObjectKey objectKey => exact tag _ (map _ (counted key))
  | genericSslSecTrans service => exact tag _ (map _ (encaps false (string service.1).within))
  | sslSecTrans targetSupports targetRequires port =>
    refine tag _ (encaps false (bind (align (by decide)) (need ?_ ?_)).within)
    · intro pos
      simp [Put.append]
    · rw [Put.append_append, Put.append_append, Put.seq_assoc]
      exact bind (ulong targetSupports) (bind (ulong targetRequires) (map _ (ushort port)))
  | codeSets forCharData forWcharData =>
    exact tag _ (encaps true (bind (codeSet forCharData) (map _ (codeSet forWcharData))).within)

theorem components (cs : List (IopComponent CString)) :
    ReadsBack e (marshalComponents e key cs) demarshalComponents
      (cs.map (IopComponent.arrived key)) := by
  have hcount : ∀ pos, cs.length ≤ (Put.all (cs.map (IopComponent.marshal e key)) pos).length := by
    intro pos
    refine (Put.le_length_all ?_ pos).trans' (by rw [List.length_map])
    intro w hw pos
    obtain ⟨c, _, rfl⟩ := List.mem_map.1 hw
    cases c <;> simp [IopComponent.marshal, Put.seq, Put.word, Put.append]
  refine bounded (n := cs.length) ?_ fun hlt => bind (word (by decide) (by omega)) (all cs fun c _ => component c)
  intro pos
  rw [marshalComponents, Put.seq, List.length_append]
  exact (hcount _).trans (Nat.le_add_left _ _)

theorem version (v : Version) : ReadsBack e (.append v.ids) Dec.version v := by
  have hlen : v.ids.length = 2 := by cases v <;> rfl
  have h := octets (e := e) v.ids
  rw [hlen] at h
  rw [← Put.seq_nothing (.append v.ids)]
  refine bind h ?_
  rw [Version.ofIds_ids]
  exact pure v

theorem profile (p : IopProfile CString) (hp : p.Sendable) :
    ReadsBack e (p.marshal e key) demarshalProfile (p.arrived key) := by
  cases p with
  | unknown profileType data =>
    refine tag profileType.1 ?_
    rw [demarshalProfileOf, dif_pos profileType.2]
    exact map _ (counted data)
  | internetIop iiopVersion host n objectKey cs =>
    refine tag _ (encaps true (bindWithin (version iiopVersion) (bindWithin (string host.1)
      (bindWithin (port n) (bindWithin (counted key) ?_)))))
    cases iiopVersion with
    | v1_0 =>
      have hnil : cs = [] := hp
      subst hnil
      exact fun _ _ _ _ _ => ⟨_, rfl⟩
    | v1_1 | v1_2 => exact (map _ (components cs)).within
  | genericIop iiopVersion proto host service cs =>
    exact tag _ (encaps true (bind (version iiopVersion) (bind (string proto.1)
      (bind (string host.1) (bind (string service.1) (map _ (components cs)))))).within)
  | orbitSpecific unixSockPath ipv6Port objectKey =>
    refine tag _ (encaps true (ReadsBack.within (need ?_ (bind (skip [1, 2]) (bind (string unixSockPath.1)
      (bind (port ipv6Port) (map _ (counted key))))))))
    intro pos
    simp [Put.seq, Put.append]
  | multipleComponents cs => exact tag _ (map _ (encaps true (components cs).within))

/-- What follows the type id of a reference, when that has been read. -/
theorem profiles {ps : List (IopProfile CString)} (hsend : ∀ p ∈ ps, p.Sendable) (hne : ps ≠ [])
    (typeId : List UInt8) :
    ReadsBack e ((Put.word e 4 ps.length).seq (.all (ps.map (IopProfile.marshal e key))))
      (do
        let numProfiles ← Dec.alignedWord 4
        if typeId.headD 0 = 0 ∧ numProfiles = 0 then return none
        else
          let profiles ← demarshalProfile.times numProfiles
          return some (typeId, profiles))
      (some (typeId, ps.map (IopProfile.arrived key))) := by
  have hcount : ∀ pos, ps.length ≤ (Put.all (ps.map (IopProfile.marshal e key)) pos).length := by
    intro pos
    refine (Put.le_length_all ?_ pos).trans' (by rw [List.length_map])
    intro w hw pos
    obtain ⟨p, _, rfl⟩ := List.mem_map.1 hw
    cases p <;> simp [IopProfile.marshal, Put.seq, Put.word, Put.append]
  refine bounded (n := ps.length) ?_ fun hlt => bind (word (by decide) (by omega)) ?_
  · intro pos
    rw [Put.seq, List.length_append]
    exact (hcount _).trans (Nat.le_add_left _ _)
  · have hnum : ¬ (typeId.headD 0 = 0 ∧ ps.length = 0) := fun h => hne (List.length_eq_zero_iff.1 h.2)
    rw [if_neg hnum]
    exact map _ (all ps fun p hp => profile p (hsend p hp))

end ReadsBack

/-! ### References -/

/-- A reference with profiles arrives: the type id is a pointer to its characters in the message,
the profiles have the object key, and the reader stands behind what was written. -/
theorem demarshalIOR_marshalProfiles {key : List UInt8} {typeId : CString}
    {profiles : List (IopProfile CString)} (hsend : ∀ p ∈ profiles, p.Sendable)
    (hne : profiles ≠ []) (f : Frame) (b : PlainBuffer)
    (hw : (b.put (marshalProfiles f.sender key typeId profiles)).Within f.data)
    (hlt : (b.put (marshalProfiles f.sender key typeId profiles)).pos < 2^32) :
    ∃ behind, demarshalIOR (f.at b) =
      .ok (some (typeId.1 ++ 0 :: behind, profiles.map (IopProfile.arrived key)),
        f.at (b.put (marshalProfiles f.sender key typeId profiles))) := by
  have hsplit : b.put (marshalProfiles f.sender key typeId profiles) =
      ((b.put (.word f.sender 4 (typeId.1.length + 1))).append (typeId.1 ++ [0])).put
        ((Put.word f.sender 4 profiles.length).seq
          (.all (profiles.map (IopProfile.marshal f.sender key)))) := by
    rw [marshalProfiles, PlainBuffer.put_seq b, Put.string, PlainBuffer.put_seq b]
    rfl
  rw [hsplit] at hw hlt ⊢
  generalize hb₁ : b.put (.word f.sender 4 (typeId.1.length + 1)) = b₁ at hw hlt ⊢
  have hmem : (b₁.append (typeId.1 ++ [0])).Within f.data := hw.mono (PlainBuffer.grows_put _ _)
  have hpos := PlainBuffer.put_pos (b₁.append (typeId.1 ++ [0]))
    ((Put.word f.sender 4 profiles.length).seq (.all (profiles.map (IopProfile.marshal f.sender key))))
  have hpos₁ := PlainBuffer.append_pos b₁ (typeId.1 ++ [0])
  have hlen : (typeId.1 ++ [0]).length = typeId.1.length + 1 := List.length_append
  obtain ⟨behind, hdrop⟩ := hmem.drop
  refine ⟨behind, ?_⟩
  have hword := @ReadsBack.word f.sender 4 (typeId.1.length + 1) (by decide) (by omega) f b rfl
    (by rw [hb₁]; exact hmem.mono (PlainBuffer.grows_append _ _)) (by rw [hb₁]; omega)
  have hneed := f.need_at hmem
  have hadvance := f.advance_at (b := b₁) (typeId.1 ++ [0])
  rw [hlen] at hneed hadvance
  rw [hb₁] at hword
  have htypeId : f.data.drop b₁.pos = typeId.1 ++ 0 :: behind := by
    rw [hdrop, List.append_assoc]
    rfl
  rw [demarshalIOR, Dec.bind_ok hword, Dec.bind_ok hneed]
  have hread := @ReadsBack.profiles f.sender key _ hsend hne (typeId.1 ++ 0 :: behind) f
    (b₁.append (typeId.1 ++ [0])) rfl hw hlt
  have hpointer : Dec.pointer (f.at b₁) = .ok (typeId.1 ++ 0 :: behind, f.at b₁) := by
    rw [← htypeId]
    rfl
  rw [← hread, Dec.bind_ok hpointer, Dec.bind_ok hadvance]

end ORBit2
