import ORBit2.Base.Traversal
import ORBit2.IorRoundTrip
import ORBit2.ObjectReferences

/-! References as strings (`CORBA_ORB_object_to_string`, `CORBA_ORB_string_to_object`), and what is
left of a reference that has been written and read again. -/

set_option autoImplicit false

namespace ORBit2
open Words Traversal

/-! ### Strings of digits -/

def num2hexdigit (n : UInt8) : UInt8 := if n > 9 then n + 97 - 10 else n + 48

def asciiIsxdigit (c : UInt8) : Bool :=
  (48 ≤ c && c ≤ 57) || (65 ≤ c && c ≤ 70) || (97 ≤ c && c ≤ 102)

/-- `g_ascii_xdigit_value`, -1 for what is no digit. -/
def asciiXdigitValue (c : UInt8) : UInt8 :=
  if 48 ≤ c ∧ c ≤ 57 then c - 48
  else if 65 ≤ c ∧ c ≤ 70 then c - 65 + 10
  else if 97 ≤ c ∧ c ≤ 102 then c - 97 + 10
  else 255

def hexPair (byte : UInt8) : List UInt8 :=
  [num2hexdigit ((byte &&& 0xF0) >>> 4), num2hexdigit (byte &&& 0xF)]

def hexDigits (bytes : List UInt8) : List UInt8 := bytes.flatMap hexPair

/-- The bytes that the digits stand for, two and two. -/
def hexBytes : List UInt8 → List UInt8
  | high :: low :: digits => (asciiXdigitValue high <<< 4 ||| asciiXdigitValue low) :: hexBytes digits
  | _ => []

/-- What holds of the 256 pairs of digits holds of each byte. -/
theorem forall_byte {p : UInt8 → Prop} (h : ∀ high low : Fin 16, p (UInt8.ofNat (16 * high.1 + low.1)))
    (byte : UInt8) : p byte := by
  have hlt := byte.toNat_lt
  have hn := h ⟨byte.toNat / 16, by omega⟩ ⟨byte.toNat % 16, by omega⟩
  rwa [Nat.div_add_mod, UInt8.ofNat_toNat] at hn

theorem hexBytes_hexPair (byte : UInt8) (digits : List UInt8) :
    hexBytes (hexPair byte ++ digits) = byte :: hexBytes digits := by
  have hbyte : ∀ byte : UInt8, asciiXdigitValue (num2hexdigit ((byte &&& 0xF0) >>> 4)) <<< 4 |||
      asciiXdigitValue (num2hexdigit (byte &&& 0xF)) = byte := forall_byte (by decide)
  simp only [hexPair, List.cons_append, List.nil_append, hexBytes, hbyte]

theorem hexBytes_hexDigits (bytes : List UInt8) : hexBytes (hexDigits bytes) = bytes := by
  induction bytes with
  | nil => rfl
  | cons byte bytes ih => rw [hexDigits, List.flatMap_cons, hexBytes_hexPair, ← hexDigits, ih]

theorem isxdigit_hexDigits {bytes : List UInt8} {c : UInt8} (h : c ∈ hexDigits bytes) :
    asciiIsxdigit c := by
  obtain ⟨byte, _, hc⟩ := List.mem_flatMap.1 h
  have hpair : ∀ byte : UInt8, asciiIsxdigit (num2hexdigit ((byte &&& 0xF0) >>> 4)) ∧
      asciiIsxdigit (num2hexdigit (byte &&& 0xF)) := forall_byte (by decide)
  rw [hexPair, List.mem_cons, List.mem_singleton] at hc
  obtain rfl | rfl := hc
  · exact (hpair byte).1
  · exact (hpair byte).2

theorem length_hexDigits (bytes : List UInt8) : (hexDigits bytes).length = 2 * bytes.length := by
  induction bytes with
  | nil => rfl
  | cons byte bytes ih =>
    rw [hexDigits, List.flatMap_cons, ← hexDigits, List.length_append, ih, List.length_cons, hexPair]
    simp only [List.length_cons, List.length_nil]
    omega

/-- `"IOR:"`. -/
def iorPrefix : List UInt8 := [73, 79, 82, 58]

/-- The other prefixes of a string that `CORBA_ORB_string_to_object` accepts. -/
def corbalocPrefixes : List (List UInt8) :=
  ["corbaloc:", "iiop:", "iiops:", "ssliop:", "uiop:"].map fun str => str.toUTF8.toList

theorem zero_not_mem_iorString (bytes : List UInt8) : 0 ∉ iorPrefix ++ hexDigits bytes := by
  intro h
  rcases List.mem_append.1 h with h | h
  · revert h
    decide
  · have hdigit := isxdigit_hexDigits h
    revert hdigit
    decide

/-- `CORBA_ORB_object_to_string`; `corbaloc` is what `ORBit_object_to_corbaloc` returns, where it is
to be used and raises nothing. -/
def objectToString (host : Endian) (corbaloc : Option CString) (obj : Reference) :
    Except ObjrefFault CString :=
  match corbaloc with
  | some out => .ok out
  | none => do
      let w ← obj.marshal host
      let bytes := (((⟨0, []⟩ : PlainBuffer).append [flagByte host]).put w).body
      return ⟨iorPrefix ++ hexDigits bytes, zero_not_mem_iorString bytes⟩

/-- What `CORBA_ORB_string_to_object` leaves. -/
inductive StringToObject where
  | badParam
  | marshal
  | nil
  /-- the string is left to `ORBit_object_by_corbaloc` -/
  | corbaloc
  | reference (obj : Reference) (objrefs : Option (List Reference))
  deriving DecidableEq

def StringToObject.ofDemarshalled : Demarshalled → StringToObject
  | .failed => .marshal
  | .nil => .nil
  | .reference obj objrefs => .reference obj objrefs

/-- The buffer for the digits behind the prefix, up to the last one, if they are even in number;
`base` is the address of `tmpbuf`. -/
def iorBuffer (base : Nat) (host : Endian) (string : List UInt8) : Option RecvCursor :=
  let digits := string.rdropWhile fun c => !asciiIsxdigit c
  if digits.length % 2 ≠ 0 then none
  else
    let tmpbuf := hexBytes digits
    some ((⟨base, tmpbuf, 0, host, host⟩ : RecvCursor).encaps true tmpbuf.length)

/-- `CORBA_ORB_string_to_object`. -/
def stringToObject (base : Nat) (host : Endian) (objrefs : Option (List Reference))
    (string : CString) : Except ObjrefFault StringToObject :=
  if iorPrefix.isPrefixOf string.1 then
    match iorBuffer base host (string.1.drop 4) with
    | none => .ok .nil
    | some c => (demarshalObject objrefs c).map StringToObject.ofDemarshalled
  else if corbalocPrefixes.any fun str => str.isPrefixOf string.1 then .ok .corbaloc
  else .ok .badParam

theorem iorBuffer_hexDigits {base : Nat} (host sender : Endian) (hbase : 8 ∣ base)
    (body : List UInt8) :
    iorBuffer base host (hexDigits (flagByte sender :: body)) =
      some ((⟨base, host, sender, flagByte sender :: body, hbase⟩ : Frame).at ⟨0, [flagByte sender]⟩) := by
  have hdrop : (hexDigits (flagByte sender :: body)).rdropWhile (fun c => !asciiIsxdigit c) =
      hexDigits (flagByte sender :: body) := by
    rw [List.rdropWhile_eq_self_iff]
    intro hne
    rw [isxdigit_hexDigits (List.getLast_mem hne)]
    decide
  have heven : ¬ (hexDigits (flagByte sender :: body)).length % 2 ≠ 0 := by
    rw [length_hexDigits]
    omega
  have hsender : (if flagByte sender &&& 1 = 1 then Endian.little else .big) = sender := by
    cases sender <;> rfl
  rw [iorBuffer, hdrop, if_neg heven, hexBytes_hexDigits]
  simp [RecvCursor.encaps, Frame.at, PlainBuffer.pos, hsender]

/-! ### The profiles of a reference in memory -/

def IopComponent.map {σ τ : Type} (f : σ → τ) : IopComponent σ → IopComponent τ
  | .genericSslSecTrans service => .genericSslSecTrans (f service)
  | .sslSecTrans targetSupports targetRequires port => .sslSecTrans targetSupports targetRequires port
  | .completeObjectKey objectKey => .completeObjectKey objectKey
  | .codeSets forCharData forWcharData => .codeSets forCharData forWcharData
  | .unknown componentType data => .unknown componentType data

def IopProfile.map {σ τ : Type} (f : σ → τ) : IopProfile σ → IopProfile τ
  | .internetIop iiopVersion host port objectKey components =>
      .internetIop iiopVersion (f host) port objectKey (components.map (IopComponent.map f))
  | .genericIop iiopVersion proto host service components =>
      .genericIop iiopVersion (f proto) (f host) (f service) (components.map (IopComponent.map f))
  | .orbitSpecific unixSockPath ipv6Port objectKey => .orbitSpecific (f unixSockPath) ipv6Port objectKey
  | .multipleComponents components => .multipleComponents (components.map (IopComponent.map f))
  | .unknown profileType data => .unknown profileType data

/-- A component that is no complete object key, or this one. -/
def IopComponent.HasKey {σ : Type} (own : Option (List UInt8)) : IopComponent σ → Prop
  | .completeObjectKey objectKey => objectKey = own
  | _ => True

/-- The profiles of a reference with this key, as `IOP_profiles_sync_objkey` leaves them: it takes
the keys out of the profiles that it looks at, the others keep the key of the reference. -/
def IopProfile.Settled {σ : Type} (key : List UInt8) : IopProfile σ → Prop
  | .internetIop _ _ _ own components => own = none ∧ ∀ c ∈ components, c.HasKey (some key)
  | .genericIop _ _ _ _ components => ∀ c ∈ components, c.HasKey (some key)
  | .orbitSpecific _ _ own => own = none
  | .multipleComponents components => ∀ c ∈ components, c.HasKey none
  | .unknown _ _ => True

section Arrived
variable {key : List UInt8}

theorem readString_append (str : CString) (behind : List UInt8) :
    readString (some (str.1 ++ 0 :: behind)) = .ok str := by
  obtain ⟨str, hstr⟩ := str
  have htake : (str ++ 0 :: behind).takeWhile (· ≠ 0) = str := by
    rw [List.takeWhile_append_of_pos]
    · simp
    · intro c hc
      simp only [decide_eq_true_eq]
      rintro rfl
      exact hstr hc
  simp only [readString, List.mem_append, List.mem_cons, true_or, or_true, if_true, htake]

theorem readString_block (str : CString) : readString str.block = .ok str := readString_append str []

theorem IopComponent.readStrings_map (c : IopComponent CString) :
    (c.map CString.block).readStrings = .ok c := by
  cases c with
  | genericSslSecTrans service =>
    rw [IopComponent.map, IopComponent.readStrings, readString_block]
    rfl
  | _ => rfl

theorem IopProfile.readStrings_map (p : IopProfile CString) :
    (p.map CString.block).readStrings = .ok p := by
  cases p <;>
    simp only [IopProfile.map, IopProfile.readStrings, readString_block, Outcomes.ok_bind,
      mapM_map_ok IopComponent.readStrings_map] <;> rfl

/-- The key, as soon as it has been found. -/
def foundKey (key : List UInt8) (found : Bool) : Option (List UInt8) := if found then some key else none

theorem nextKey_foundKey (found : Bool) : nextKey (foundKey key found) (some key) = .ok (some key) := by
  cases found <;> rfl

theorem arrived_of_hasKey {cs : List (IopComponent CString)} (h : ∀ c ∈ cs, c.HasKey (some key)) :
    cs.map (IopComponent.arrived key) = cs.map (IopComponent.map CString.block) := by
  refine List.map_congr_left fun c hc => ?_
  have hkey := h c hc
  cases c with
  | completeObjectKey objectKey => rw [IopComponent.arrived, IopComponent.map, (hkey : objectKey = some key)]
  | _ => rfl

theorem syncComponents_arrived {cs : List (IopComponent CString)} (h : ∀ c ∈ cs, c.HasKey none)
    (found : Bool) :
    syncComponents (foundKey key found) (cs.map (IopComponent.arrived key)) =
      .ok (foundKey key (found || cs.any IopComponent.isKey), cs.map (IopComponent.map CString.block)) := by
  induction cs generalizing found with
  | nil => rw [List.any_nil, Bool.or_false]; rfl
  | cons c cs ih =>
    have hc := h c List.mem_cons_self
    have ih := ih fun c hc => h c (List.mem_cons_of_mem _ hc)
    rw [List.map_cons, List.map_cons, List.any_cons]
    cases c with
    | completeObjectKey objectKey =>
      have hnone : objectKey = none := hc
      have htrue := ih true
      rw [Bool.true_or] at htrue
      rw [IopComponent.arrived, syncComponents, nextKey_foundKey, IopComponent.isKey, Bool.true_or,
        Bool.or_true, hnone]
      change (syncComponents (foundKey key true) _ >>= _) = _
      rw [htrue]
      rfl
    | _ =>
      simp only [IopComponent.arrived, syncComponents, IopComponent.isKey, Bool.false_or, ih]
      rfl

theorem syncProfile_arrived {p : IopProfile CString} (h : p.Settled key) (found : Bool) :
    syncProfile (foundKey key found) (p.arrived key) =
      .ok (foundKey key (found || p.carriesKey), p.map CString.block) := by
  cases p with
  | internetIop iiopVersion host port own cs =>
    obtain ⟨rfl, hcs⟩ := h
    rw [IopProfile.arrived, syncProfile, nextKey_foundKey, arrived_of_hasKey hcs, IopProfile.carriesKey,
      Bool.or_true]
    rfl
  | genericIop iiopVersion proto host service cs =>
    rw [IopProfile.arrived, arrived_of_hasKey h, IopProfile.carriesKey, Bool.or_false]
    rfl
  | orbitSpecific unixSockPath ipv6Port own =>
    have hnone : own = none := h
    rw [IopProfile.arrived, syncProfile, nextKey_foundKey, IopProfile.carriesKey, Bool.or_true, hnone]
    rfl
  | multipleComponents cs =>
    rw [IopProfile.arrived, syncProfile, syncComponents_arrived h]
    rfl
  | unknown profileType data =>
    rw [IopProfile.carriesKey, Bool.or_false]
    rfl

theorem syncProfiles_arrived {ps : List (IopProfile CString)} (h : ∀ p ∈ ps, p.Settled key)
    (found : Bool) :
    syncProfiles (foundKey key found) (ps.map (IopProfile.arrived key)) =
      .ok (foundKey key (found || ps.any IopProfile.carriesKey), ps.map (IopProfile.map CString.block)) := by
  induction ps generalizing found with
  | nil => rw [List.any_nil, Bool.or_false]; rfl
  | cons p ps ih =>
    have ih := ih (fun p hp => h p (List.mem_cons_of_mem _ hp)) (found || p.carriesKey)
    rw [List.any_cons, ← Bool.or_assoc]
    rw [List.map_cons, syncProfiles, syncProfile_arrived (h p List.mem_cons_self)]
    simp only [Outcomes.ok_bind, ih]
    rfl

end Arrived

/-! ### References that come back -/

/-- A reference with this type id, this key and these profiles. -/
def Reference.of (typeId : CString) (key : List UInt8) (profiles : List (IopProfile CString)) :
    Reference :=
  ⟨typeId, some key, profiles.map (IopProfile.map CString.block)⟩

/-- What is returned for a reference that has arrived: the one that is registered for it, or a new
one. -/
def Demarshalled.found (objrefs : Option (List Reference)) (obj : Reference) :
    Option Reference → Demarshalled
  | some registered => .reference registered objrefs
  | none => .reference obj (some (objrefs.getD [] ++ [obj]))

section RoundTrip
variable {key : List UInt8} {typeId : CString} {profiles : List (IopProfile CString)}

theorem Reference.marshal_of (hne : profiles ≠ []) (host : Endian) :
    (Reference.of typeId key profiles).marshal host =
      .ok (marshalProfiles host key typeId profiles) := by
  have hempty : ¬ (profiles.map (IopProfile.map CString.block)).isEmpty := by
    rw [List.isEmpty_iff, List.map_eq_nil_iff]
    exact hne
  rw [Reference.marshal, Reference.of, if_neg hempty, mapM_map_ok IopProfile.readStrings_map]
  rfl

theorem profilesSyncObjkey_arrived (hsettled : ∀ p ∈ profiles, p.Settled key)
    (hkey : ∃ p ∈ profiles, p.carriesKey) :
    profilesSyncObjkey (profiles.map (IopProfile.arrived key)) =
      .ok (some key, profiles.map (IopProfile.map CString.block)) := by
  have hsync := syncProfiles_arrived hsettled false
  rw [List.any_eq_true.2 hkey] at hsync
  exact hsync

theorem objrefFind_arrived (objrefs : Option (List Reference)) (behind : List UInt8)
    (hsettled : ∀ p ∈ profiles, p.Settled key) (hkey : ∃ p ∈ profiles, p.carriesKey) :
    (do
      let (obj, objrefs) ← objrefFind objrefs (some (typeId.1 ++ 0 :: behind))
        (profiles.map (IopProfile.arrived key))
      return Demarshalled.reference obj objrefs) =
      (lookupObjref objrefs (Reference.of typeId key profiles)).map
        (Demarshalled.found objrefs (Reference.of typeId key profiles)) := by
  have hne : (profiles.map (IopProfile.map CString.block)).isEmpty = false := by
    obtain ⟨p, hp, _⟩ := hkey
    rw [List.isEmpty_eq_false_iff_exists_mem]
    exact ⟨_, List.mem_map_of_mem hp⟩
  simp only [objrefFind, readString_append, Outcomes.ok_bind, profilesSyncObjkey_arrived hsettled hkey,
    Reference.of]
  cases lookupObjref objrefs ⟨typeId, some key, profiles.map (IopProfile.map CString.block)⟩ with
  | error e => rfl
  | ok found =>
    cases found with
    | some registered => rfl
    | none =>
      simp only [Outcomes.ok_bind, registerObjref, hne]
      rfl

theorem demarshalObject_arrived (hsend : ∀ p ∈ profiles, p.Sendable)
    (hsettled : ∀ p ∈ profiles, p.Settled key) (hkey : ∃ p ∈ profiles, p.carriesKey)
    (objrefs : Option (List Reference)) (f : Frame) (b : PlainBuffer)
    (hw : (b.put (marshalProfiles f.sender key typeId profiles)).Within f.data)
    (hlt : (b.put (marshalProfiles f.sender key typeId profiles)).pos < 2^32) :
    demarshalObject objrefs (f.at b) =
      (lookupObjref objrefs (Reference.of typeId key profiles)).map
        (Demarshalled.found objrefs (Reference.of typeId key profiles)) := by
  obtain ⟨p, hp, _⟩ := hkey
  obtain ⟨behind, hread⟩ := demarshalIOR_marshalProfiles hsend (List.ne_nil_of_mem hp) f b hw hlt
  rw [demarshalObject, hread]
  exact objrefFind_arrived objrefs behind hsettled ⟨p, hp, ‹_›⟩

/-- The string of a reference is read as the bytes that were written. -/
theorem stringToObject_iorString {base : Nat} (host sender : Endian)
    (objrefs : Option (List Reference)) (hbase : 8 ∣ base) {str : CString} {body : List UInt8}
    (hstr : str.1 = iorPrefix ++ hexDigits (flagByte sender :: body)) :
    stringToObject base host objrefs str =
      (demarshalObject objrefs ((⟨base, host, sender, flagByte sender :: body, hbase⟩ : Frame).at
        ⟨0, [flagByte sender]⟩)).map StringToObject.ofDemarshalled := by
  have hdrop : str.1.drop 4 = hexDigits (flagByte sender :: body) := by
    rw [hstr]
    rfl
  have hprefix : iorPrefix.isPrefixOf str.1 := by
    rw [hstr, List.isPrefixOf_iff_prefix]
    exact List.prefix_append _ _
  rw [stringToObject, if_pos hprefix, hdrop, iorBuffer_hexDigits host sender hbase body]

/-- A reference that is written is read back by every host, from a message and from a string, and
the reader comes to the end of it. From a string it is the reference that is registered for it,
where there is one. -/
theorem reference_comes_back (hsend : ∀ p ∈ profiles, p.Sendable)
    (hsettled : ∀ p ∈ profiles, p.Settled key) (hkey : ∃ p ∈ profiles, p.carriesKey) (host : Endian) :
    let obj := Reference.of typeId key profiles
    (∃ w, obj.marshal host = .ok w ∧ ∀ (f : Frame) (b : PlainBuffer), f.sender = host →
      (b.put w).Within f.data → (b.put w).pos < 2^32 →
      ∃ id received, demarshalIOR (f.at b) = .ok (some (id, received), f.at (b.put w)) ∧
        readString (some id) = .ok typeId ∧
        profilesSyncObjkey received = .ok (obj.objectKey, obj.profileList)) ∧
    ∃ str, objectToString host none obj = .ok str ∧ (str.1.length + 1 < 2^31 →
      ∀ (base : Nat) (reader : Endian) (objrefs : Option (List Reference)), 8 ∣ base →
        stringToObject base reader objrefs str = (lookupObjref objrefs obj).map fun registered =>
          .ofDemarshalled (Demarshalled.found objrefs obj registered)) := by
  intro obj
  have hne : profiles ≠ [] := by
    obtain ⟨p, hp, _⟩ := hkey
    exact List.ne_nil_of_mem hp
  have hmarshal : obj.marshal host = .ok (marshalProfiles host key typeId profiles) :=
    Reference.marshal_of hne host
  refine ⟨⟨_, hmarshal, ?_⟩, ?_⟩
  · rintro f b rfl hw hlt
    obtain ⟨behind, hread⟩ := demarshalIOR_marshalProfiles hsend hne f b hw hlt
    exact ⟨_, _, hread, readString_append typeId behind, profilesSyncObjkey_arrived hsettled hkey⟩
  · rw [objectToString, hmarshal]
    refine ⟨_, rfl, ?_⟩
    intro hlt base reader objrefs hbase
    let b : PlainBuffer := ⟨0, [flagByte host]⟩
    let written := b.put (marshalProfiles host key typeId profiles)
    have hlen : written.pos < 2^32 := by
      have hlt : (iorPrefix ++ hexDigits written.body).length + 1 < 2^31 := hlt
      rw [List.length_append, length_hexDigits] at hlt
      have hpos : written.pos = 0 + written.body.length := rfl
      omega
    have hwithin : written.Within written.body := ⟨[], [], rfl, by rw [List.nil_append, List.append_nil]⟩
    have hread := demarshalObject_arrived hsend hsettled hkey objrefs
      ⟨base, reader, host, written.body, hbase⟩ b hwithin hlen
    rw [stringToObject_iorString reader host objrefs hbase rfl]
    refine (congrArg (Except.map StringToObject.ofDemarshalled) hread).trans ?_
    cases lookupObjref objrefs obj <;> rfl

end RoundTrip

/-! ### Two references -/

theorem typeId_noNul : (0 : UInt8) ∉ [65] := by decide

/-- An IIOP profile with its own key and a complete one. -/
def iiopReference (objectKey : List UInt8) : Reference :=
  .of ⟨[65], typeId_noNul⟩ [1]
    [.internetIop .v1_2 ⟨[104], by decide⟩ 80 none [.completeObjectKey (some objectKey)]]

theorem reference_comes_back_iiop :
    ∃ str, objectToString .big none (iiopReference [1]) = .ok str ∧
      stringToObject 0 .little none str =
        .ok (.reference (iiopReference [1]) (some [iiopReference [1]])) := by
  obtain ⟨_, str, hstr, hread⟩ := @reference_comes_back [1] ⟨[65], by decide⟩
    [.internetIop .v1_2 ⟨[104], by decide⟩ 80 none [.completeObjectKey (some [1])]]
    (by simp [IopProfile.Sendable]) (by simp [IopProfile.Settled, IopComponent.HasKey])
    (by simp [IopProfile.carriesKey]) .big
  have hlen : (objectToString .big none (iiopReference [1])).map (·.1.length) = .ok 118 := by
    decide_cbv
  rw [iiopReference, hstr] at hlen
  have hlen : str.1.length = 118 := Except.ok.inj hlen
  have hlt : str.1.length + 1 < 2^31 := by omega
  refine ⟨str, hstr, ?_⟩
  rw [hread hlt 0 .little none (Nat.dvd_zero 8)]
  rfl

/-- A generic profile only. -/
def genericReference : Reference :=
  .of ⟨[65], typeId_noNul⟩ [1]
    [.genericIop .v1_2 ⟨[73, 80, 118, 52], by decide⟩ ⟨[104], by decide⟩ ⟨[56, 48], by decide⟩ []]

/-- A complete object key that is another one arrives as the key of the reference; and where no
profile has the key, it does not arrive. -/
theorem keys_lost :
    (∃ str, objectToString .big none (iiopReference [2]) = .ok str ∧
      stringToObject 0 .big none str =
        .ok (.reference (iiopReference [1]) (some [iiopReference [1]]))) ∧
    iiopReference [1] ≠ iiopReference [2] ∧
    ∃ str, objectToString .big none genericReference = .ok str ∧
      stringToObject 0 .big none str = .error .assertion := by
  have hother : (objectToString .big none (iiopReference [2]) >>= stringToObject 0 .big none) =
      .ok (.reference (iiopReference [1]) (some [iiopReference [1]])) := by decide_cbv
  have hlen : (objectToString .big none genericReference).isOk := by decide_cbv
  have hnone : (objectToString .big none genericReference >>= stringToObject 0 .big none) =
      .error .assertion := by decide_cbv
  refine ⟨Outcomes.of_bind hother, by decide, ?_⟩
  cases hstr : objectToString .big none genericReference with
  | error e =>
    rw [hstr] at hlen
    cases hlen
  | ok str =>
    rw [hstr] at hnone
    exact ⟨str, rfl, hnone⟩

end ORBit2
