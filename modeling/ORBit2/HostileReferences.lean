import ORBit2.Base.Traversal
import ORBit2.ObjectReferences

/-! References that a peer has made up: when they can be received, looked up, compared, written,
dumped and connected. -/

set_option autoImplicit false

namespace ORBit2
open Traversal

/-! ### What a reader yields -/

/-- Each value that is read has the property. -/
def Dec.Yields {α : Type} (m : Dec α) (p : α → Prop) : Prop :=
  ∀ ⦃c : RecvCursor⦄ ⦃a : α⦄ ⦃c' : RecvCursor⦄, m c = .ok (a, c') → p a

namespace Dec.Yields
variable {α β : Type} {m : Dec α} {p : α → Prop} {q : β → Prop}

theorem pure {a : α} (h : p a) : Dec.Yields (Pure.pure a) p := by
  rintro c _ _ ⟨⟩
  exact h

theorem stop {e : Stop} : Dec.Yields (Dec.stop e) p := by
  rintro c _ _ ⟨⟩

theorem bind {f : α → Dec β} (hm : m.Yields p) (hf : ∀ a, p a → (f a).Yields q) :
    (m >>= f).Yields q := by
  intro c b c'' h
  obtain ⟨a, c', ha, hb⟩ := Dec.bind_eq_ok.1 h
  exact hf a (hm ha) hb

theorem after {f : α → Dec β} (hf : ∀ a, (f a).Yields q) : (m >>= f).Yields q :=
  bind (p := fun _ => True) (fun _ _ _ _ => trivial) fun a _ => hf a

theorem within {inside : Bool} {len : Nat} (hm : m.Yields p) : (Dec.within inside len m).Yields p := by
  intro c a c' h
  rw [Dec.within] at h
  split at h
  · cases h
  · rename_i a' c'' hread
    cases h
    exact hm hread

theorem encaps {inside : Bool} (hm : m.Yields p) : (Dec.encaps inside m).Yields p :=
  after fun _ => after fun _ => within hm

theorem times (hm : m.Yields p) (n : Nat) : (m.times n).Yields fun as => ∀ a ∈ as, p a := by
  induction n with
  | zero => exact pure (List.forall_mem_nil p)
  | succ n ih =>
    refine bind hm fun a ha => bind ih fun as has => pure ?_
    exact List.forall_mem_cons.2 ⟨ha, has⟩

end Dec.Yields

/-! ### Keys and strings of profiles -/

/-- No complete object key is missing. -/
def IopComponent.KeyGiven {σ : Type} : IopComponent σ → Prop
  | .completeObjectKey objectKey => objectKey ≠ none
  | _ => True

/-- No key is missing where `IOP_profiles_sync_objkey` looks for one. -/
def IopProfile.KeysGiven {σ : Type} : IopProfile σ → Prop
  | .internetIop _ _ _ objectKey _ | .orbitSpecific _ _ objectKey => objectKey ≠ none
  | .multipleComponents components => ∀ c ∈ components, c.KeyGiven
  | .genericIop _ _ _ _ _ | .unknown _ _ => True

/-- The profiles have no key of their own. -/
def IopProfile.Stripped {σ : Type} : IopProfile σ → Prop
  | .internetIop _ _ _ objectKey _ | .orbitSpecific _ _ objectKey => objectKey = none
  | _ => True

def IopComponent.strings {σ : Type} : IopComponent σ → List σ
  | .genericSslSecTrans service => [service]
  | _ => []

def IopProfile.strings {σ : Type} : IopProfile σ → List σ
  | .internetIop _ host _ _ components => host :: components.flatMap IopComponent.strings
  | .genericIop _ proto host service components =>
      proto :: host :: service :: components.flatMap IopComponent.strings
  | .orbitSpecific unixSockPath _ _ => [unixSockPath]
  | .multipleComponents components => components.flatMap IopComponent.strings
  | .unknown _ _ => []

/-- A string that is there and has an end. -/
def Terminated (block : Block) : Prop := ∃ bytes, block = some bytes ∧ 0 ∈ bytes

theorem Dec.Yields.demarshalComponent : demarshalComponent.Yields IopComponent.KeyGiven := by
  refine after fun cid => ?_
  unfold demarshalComponentOf
  split
  · exact after fun _ => pure trivial
  split
  · exact after fun _ => pure (Option.some_ne_none _)
  split
  · exact after fun _ => pure trivial
  split
  · exact encaps (after fun _ => after fun _ => after fun _ => after fun _ => after fun _ => pure trivial)
  · exact encaps (after fun _ => after fun _ => pure trivial)

theorem Dec.Yields.demarshalComponents :
    demarshalComponents.Yields fun cs => ∀ c ∈ cs, c.KeyGiven :=
  after fun len => times demarshalComponent len

theorem Dec.Yields.demarshalProfile : demarshalProfile.Yields IopProfile.KeysGiven := by
  refine after fun p => ?_
  unfold demarshalProfileOf
  split
  · exact after fun _ => pure trivial
  split
  · exact encaps (after fun _ => after fun _ => after fun _ => after fun _ => after fun _ =>
      pure (Option.some_ne_none _))
  split
  · exact bind (encaps demarshalComponents) fun _ hcs => pure hcs
  split
  · exact encaps (after fun _ => after fun _ => after fun _ => after fun _ => after fun _ => pure trivial)
  · exact encaps (after fun _ => after fun _ => after fun _ => after fun _ => after fun _ =>
      pure (Option.some_ne_none _))

/-- The profiles that are received have their keys. -/
theorem Dec.Yields.demarshalIOR :
    demarshalIOR.Yields fun ior => ∀ typeId profiles, ior = some (typeId, profiles) →
      ∀ p ∈ profiles, p.KeysGiven := by
  refine after fun len => after fun _ => after fun typeId => after fun _ => after fun n => ?_
  split
  · exact pure fun _ _ h => nomatch h
  · refine bind (times demarshalProfile n) fun profiles hprofiles => pure ?_
    rintro _ _ ⟨⟩
    exact hprofiles

/-! ### What the synchronisation leaves -/

theorem nextKey_given (objkey : Option (List UInt8)) {own : Option (List UInt8)} (h : own ≠ none) :
    ∃ key, nextKey objkey own = .ok (some key) := by
  obtain ⟨own, rfl⟩ := Option.ne_none_iff_exists'.1 h
  cases objkey with
  | none => exact ⟨own, rfl⟩
  | some key => exact ⟨key, rfl⟩

theorem syncComponents_given {cs : List (IopComponent Block)} (h : ∀ c ∈ cs, c.KeyGiven)
    (objkey : Option (List UInt8)) :
    ∃ key cs', syncComponents objkey cs = .ok (key, cs') ∧
      key.isSome = (objkey.isSome || cs.any IopComponent.isKey) ∧
      cs'.flatMap IopComponent.strings = cs.flatMap IopComponent.strings := by
  induction cs generalizing objkey with
  | nil => exact ⟨objkey, [], rfl, (Bool.or_false _).symm, rfl⟩
  | cons c cs ih =>
    have hc := h c List.mem_cons_self
    have ih := ih fun c hc => h c (List.mem_cons_of_mem _ hc)
    cases c with
    | completeObjectKey own =>
      obtain ⟨found, hfound⟩ := nextKey_given objkey hc
      obtain ⟨key, cs', hsync, hkey, hstrings⟩ := ih (some found)
      refine ⟨key, .completeObjectKey none :: cs', ?_, ?_, hstrings⟩
      · rw [syncComponents, hfound, Outcomes.ok_bind, hsync]
        rfl
      · rw [hkey, List.any_cons, IopComponent.isKey, Option.isSome_some, Bool.true_or, Bool.or_true]
    | _ =>
      obtain ⟨key, cs', hsync, hkey, hstrings⟩ := ih objkey
      refine ⟨key, _ :: cs', ?_, hkey, congrArg (_ ++ ·) hstrings⟩
      rw [syncComponents, hsync]
      · rfl
      · rintro _ ⟨⟩

theorem syncProfile_given {p : IopProfile Block} (h : p.KeysGiven) (objkey : Option (List UInt8)) :
    ∃ key p', syncProfile objkey p = .ok (key, p') ∧
      key.isSome = (objkey.isSome || p.carriesKey) ∧ p'.Stripped ∧ p'.strings = p.strings := by
  cases p with
  | internetIop iiopVersion host port own components =>
    obtain ⟨key, hkey⟩ := nextKey_given objkey h
    refine ⟨some key, .internetIop iiopVersion host port none components, ?_, (Bool.or_true _).symm,
      rfl, rfl⟩
    rw [syncProfile, hkey]
    rfl
  | orbitSpecific unixSockPath ipv6Port own =>
    obtain ⟨key, hkey⟩ := nextKey_given objkey h
    refine ⟨some key, .orbitSpecific unixSockPath ipv6Port none, ?_, (Bool.or_true _).symm, rfl, rfl⟩
    rw [syncProfile, hkey]
    rfl
  | multipleComponents components =>
    obtain ⟨key, cs', hsync, hkey, hstrings⟩ := syncComponents_given h objkey
    refine ⟨key, .multipleComponents cs', ?_, hkey, trivial, hstrings⟩
    rw [syncProfile, hsync]
    rfl
  | genericIop iiopVersion proto host service components =>
    exact ⟨objkey, _, rfl, (Bool.or_false _).symm, trivial, rfl⟩
  | unknown profileType data => exact ⟨objkey, _, rfl, (Bool.or_false _).symm, trivial, rfl⟩

/-- Profiles with their keys give a key where one of them has one, and no longer have it. -/
theorem syncProfiles_given {ps : List (IopProfile Block)} (h : ∀ p ∈ ps, p.KeysGiven)
    (objkey : Option (List UInt8)) :
    ∃ key ps', syncProfiles objkey ps = .ok (key, ps') ∧
      key.isSome = (objkey.isSome || ps.any IopProfile.carriesKey) ∧
      (∀ p ∈ ps', p.Stripped) ∧ ps'.map IopProfile.strings = ps.map IopProfile.strings := by
  induction ps generalizing objkey with
  | nil => exact ⟨objkey, [], rfl, (Bool.or_false _).symm, List.forall_mem_nil _, rfl⟩
  | cons p ps ih =>
    obtain ⟨found, p', hp, hfound, hstripped, hstrings⟩ :=
      syncProfile_given (h p List.mem_cons_self) objkey
    obtain ⟨key, ps', hps, hkey, hall, hmap⟩ := ih (fun p hp => h p (List.mem_cons_of_mem _ hp)) found
    refine ⟨key, p' :: ps', ?_, ?_, List.forall_mem_cons.2 ⟨hstripped, hall⟩, ?_⟩
    · rw [syncProfiles, hp]
      simp only [Outcomes.ok_bind, hps]
      rfl
    · rw [hkey, hfound, List.any_cons, Bool.or_assoc]
    · rw [List.map_cons, List.map_cons, hstrings, hmap]

/-! ### Strings that are read -/

theorem readString_ok {block : Block} : (∃ str, readString block = .ok str) ↔ Terminated block := by
  cases block with
  | none =>
    constructor
    · rintro ⟨_, ⟨⟩⟩
    · rintro ⟨_, h, _⟩
      cases h
  | some bytes =>
    constructor
    · rintro ⟨str, h⟩
      rw [readString] at h
      split at h
      · exact ⟨bytes, rfl, ‹_›⟩
      · cases h
    · rintro ⟨_, ⟨⟩, h⟩
      exact ⟨_, if_pos h⟩

theorem IopComponent.readStrings_ok {c : IopComponent Block} :
    (∃ c', c.readStrings = .ok c') ↔ ∀ s ∈ c.strings, Terminated s := by
  cases c with
  | genericSslSecTrans service =>
    rw [IopComponent.strings, List.forall_mem_singleton, ← readString_ok]
    constructor
    · rintro ⟨_, h⟩
      obtain ⟨str, hstr, _⟩ := Outcomes.of_bind h
      exact ⟨str, hstr⟩
    · rintro ⟨str, hstr⟩
      exact ⟨_, by rw [IopComponent.readStrings, hstr]; rfl⟩
  | _ => exact ⟨fun _ => List.forall_mem_nil _, fun _ => ⟨_, rfl⟩⟩

theorem mapM_readStrings_ok {cs : List (IopComponent Block)} :
    (∃ cs', cs.mapM IopComponent.readStrings = .ok cs') ↔
      ∀ s ∈ cs.flatMap IopComponent.strings, Terminated s := by
  rw [mapM_ok_iff, List.forall_mem_flatMap]
  exact forall₂_congr fun c _ => IopComponent.readStrings_ok

theorem IopProfile.readStrings_ok {p : IopProfile Block} :
    (∃ p', p.readStrings = .ok p') ↔ ∀ s ∈ p.strings, Terminated s := by
  cases p with
  | internetIop iiopVersion host port objectKey components =>
    rw [IopProfile.strings, List.forall_mem_cons, ← readString_ok, ← mapM_readStrings_ok]
    constructor
    · rintro ⟨_, h⟩
      obtain ⟨host', hhost, h⟩ := Outcomes.of_bind h
      obtain ⟨cs, hcs, _⟩ := Outcomes.of_bind h
      exact ⟨⟨host', hhost⟩, cs, hcs⟩
    · rintro ⟨⟨host', hhost⟩, cs, hcs⟩
      exact ⟨_, by rw [IopProfile.readStrings, hhost, Outcomes.ok_bind, hcs]; rfl⟩
  | genericIop iiopVersion proto host service components =>
    rw [IopProfile.strings, List.forall_mem_cons, List.forall_mem_cons, List.forall_mem_cons,
      ← readString_ok, ← readString_ok, ← readString_ok, ← mapM_readStrings_ok]
    constructor
    · rintro ⟨_, h⟩
      obtain ⟨proto', hproto, h⟩ := Outcomes.of_bind h
      obtain ⟨host', hhost, h⟩ := Outcomes.of_bind h
      obtain ⟨service', hservice, h⟩ := Outcomes.of_bind h
      obtain ⟨cs, hcs, _⟩ := Outcomes.of_bind h
      exact ⟨⟨proto', hproto⟩, ⟨host', hhost⟩, ⟨service', hservice⟩, cs, hcs⟩
    · rintro ⟨⟨proto', hproto⟩, ⟨host', hhost⟩, ⟨service', hservice⟩, cs, hcs⟩
      exact ⟨_, by
        rw [IopProfile.readStrings, hproto, Outcomes.ok_bind, hhost, Outcomes.ok_bind, hservice,
          Outcomes.ok_bind, hcs]
        rfl⟩
  | orbitSpecific unixSockPath ipv6Port objectKey =>
    rw [IopProfile.strings, List.forall_mem_singleton, ← readString_ok]
    constructor
    · rintro ⟨_, h⟩
      obtain ⟨path, hpath, _⟩ := Outcomes.of_bind h
      exact ⟨path, hpath⟩
    · rintro ⟨path, hpath⟩
      exact ⟨_, by rw [IopProfile.readStrings, hpath]; rfl⟩
  | multipleComponents components =>
    rw [IopProfile.strings, ← mapM_readStrings_ok]
    constructor
    · rintro ⟨_, h⟩
      obtain ⟨cs, hcs, _⟩ := Outcomes.of_bind h
      exact ⟨cs, hcs⟩
    · rintro ⟨cs, hcs⟩
      exact ⟨_, by rw [IopProfile.readStrings, hcs]; rfl⟩
  | unknown profileType data => exact ⟨fun _ => List.forall_mem_nil _, fun _ => ⟨_, rfl⟩⟩

/-! ### References that can be used -/

/-- What the functions of a reference rely on. -/
structure Reference.Sound (obj : Reference) : Prop where
  key : obj.objectKey ≠ none
  profiles : obj.profileList ≠ []
  stripped : ∀ p ∈ obj.profileList, p.Stripped
  strings : ∀ p ∈ obj.profileList, ∀ s ∈ p.strings, Terminated s

/-- The reference has a key and profiles, and what is done with it later goes well: it is compared
with other references and looked up among them, written, dumped and connected. -/
structure Reference.Withstands (obj : Reference) : Prop where
  key : obj.objectKey ≠ none
  profiles : obj.profileList ≠ []
  equal : ∀ other : Reference, other.Sound →
    (∃ b, obj.equal other = .ok b) ∧ ∃ b, other.equal obj = .ok b
  lookup : ∀ objrefs : List Reference, (∀ r ∈ objrefs, r.Sound) →
    ∃ found, lookupObjref (some objrefs) obj = .ok found
  marshal : ∀ host, ∃ w, obj.marshal host = .ok w
  dump : ∀ p ∈ obj.profileList, obj.dump p = .ok ()
  connection : ∀ p ∈ obj.profileList, initiateConnection p = .ok ()

theorem equalStrings_ok {s t : List UInt8} (hs : 0 ∈ s) (ht : 0 ∈ t) : ∃ b, equalStrings s t = .ok b := by
  induction s generalizing t with
  | nil => cases hs
  | cons a s ih =>
    cases t with
    | nil => cases ht
    | cons b t =>
      rw [equalStrings]
      by_cases hab : a = b
      · subst hab
        by_cases ha : a = 0
        · exact ⟨true, by rw [if_neg (not_not.2 rfl), if_pos ha]⟩
        · have hs := (List.mem_cons.1 hs).resolve_left (Ne.symm ha)
          have ht := (List.mem_cons.1 ht).resolve_left (Ne.symm ha)
          rw [if_neg (not_not.2 rfl), if_neg ha]
          exact ih hs ht
      · exact ⟨false, if_pos hab⟩

theorem equalBlocks_ok {s t : Block} (hs : Terminated s) (ht : Terminated t) :
    ∃ b, equalBlocks s t = .ok b := by
  obtain ⟨bytes, rfl, hs⟩ := hs
  obtain ⟨bytes', rfl, ht⟩ := ht
  exact equalStrings_ok hs ht

theorem profileEqual_ok (obj1 obj2 : Reference) {p q : IopProfile Block} (hp : p.Stripped)
    (hq : q.Stripped) (hps : ∀ s ∈ p.strings, Terminated s) (hqs : ∀ s ∈ q.strings, Terminated s) :
    ∃ b, profileEqual obj1 obj2 p q = .ok b := by
  unfold profileEqual
  split
  · rename_i host1 port1 key1 _ _ host2 port2 key2 _
    have hkeys : ¬ (key1 ≠ none ∨ key2 ≠ none) := fun h => h.elim (· hp) (· hq)
    rw [if_neg hkeys]
    split
    · exact ⟨false, rfl⟩
    · exact equalBlocks_ok (hps _ List.mem_cons_self) (hqs _ List.mem_cons_self)
  · rename_i proto1 host1 service1 _ _ proto2 host2 service2 _
    simp only [IopProfile.strings, List.forall_mem_cons] at hps hqs
    obtain ⟨hproto1, hhost1, hservice1, _⟩ := hps
    obtain ⟨hproto2, hhost2, hservice2, _⟩ := hqs
    obtain ⟨service, hservice⟩ := equalBlocks_ok hservice1 hservice2
    obtain ⟨host, hhost⟩ := equalBlocks_ok hhost1 hhost2
    obtain ⟨proto, hproto⟩ := equalBlocks_ok hproto1 hproto2
    split
    · exact ⟨false, rfl⟩
    · rw [hservice, hhost, hproto]
      cases service <;> cases host <;> exact ⟨_, rfl⟩
  · rename_i path1 port1 key1 path2 port2 key2
    have hkeys : ¬ (key1 ≠ none ∨ key2 ≠ none) := fun h => h.elim (· hp) (· hq)
    rw [if_neg hkeys]
    split
    · exact ⟨false, rfl⟩
    · exact equalBlocks_ok (hps _ List.mem_cons_self) (hqs _ List.mem_cons_self)
  · exact ⟨false, rfl⟩

theorem anyM_ok {ε α : Type} {f : α → Except ε Bool} {as : List α} (h : ∀ a ∈ as, ∃ b, f a = .ok b) :
    ∃ b, as.anyM f = .ok b := by
  induction as with
  | nil => exact ⟨false, rfl⟩
  | cons a as ih =>
    obtain ⟨b, hb⟩ := h a List.mem_cons_self
    rw [List.anyM, hb]
    cases b with
    | true => exact ⟨true, rfl⟩
    | false => exact ih fun a ha => h a (List.mem_cons_of_mem _ ha)

namespace Reference.Sound
variable {obj other : Reference}

theorem equal (h : obj.Sound) (ho : other.Sound) : ∃ b, obj.equal other = .ok b := by
  obtain ⟨key, hkey⟩ := Option.ne_none_iff_exists'.1 h.key
  obtain ⟨otherKey, hotherKey⟩ := Option.ne_none_iff_exists'.1 ho.key
  rw [Reference.equal, hkey, hotherKey]
  simp only
  split
  · exact ⟨false, rfl⟩
  · exact anyM_ok fun p hp => anyM_ok fun q hq => profileEqual_ok obj other (h.stripped p hp)
      (ho.stripped q hq) (h.strings p hp) (ho.strings q hq)

theorem findEqual (h : obj.Sound) {objrefs : List Reference} (hobjrefs : ∀ r ∈ objrefs, r.Sound) :
    ∃ found, findEqual obj objrefs = .ok found ∧ ∀ r ∈ found, r.Sound := by
  induction objrefs with
  | nil => exact ⟨none, rfl, nofun⟩
  | cons entry entries ih =>
    obtain ⟨hentry, hentries⟩ := List.forall_mem_cons.1 hobjrefs
    obtain ⟨b, hb⟩ := hentry.equal h
    rw [ORBit2.findEqual, hb]
    cases b with
    | true => exact ⟨some entry, rfl, by rintro r ⟨⟩; exact hentry⟩
    | false => exact ih hentries

theorem lookup (h : obj.Sound) {objrefs : Option (List Reference)}
    (hobjrefs : ∀ table ∈ objrefs, ∀ r ∈ table, r.Sound) :
    ∃ found, lookupObjref objrefs obj = .ok found ∧ ∀ r ∈ found, r.Sound := by
  cases objrefs with
  | none => exact ⟨none, rfl, nofun⟩
  | some table =>
    rw [lookupObjref, if_neg (mt List.isEmpty_iff.1 h.profiles), if_neg h.key]
    exact h.findEqual (hobjrefs table rfl)

theorem marshal (h : obj.Sound) (host : Words.Endian) : ∃ w, obj.marshal host = .ok w := by
  obtain ⟨key, hkey⟩ := Option.ne_none_iff_exists'.1 h.key
  obtain ⟨profiles, hprofiles⟩ := mapM_ok_iff.2 fun p hp => IopProfile.readStrings_ok.2 (h.strings p hp)
  rw [Reference.marshal, if_neg (mt List.isEmpty_iff.1 h.profiles), hprofiles, hkey]
  exact ⟨_, rfl⟩

theorem dump (h : obj.Sound) {p : IopProfile Block} (hp : p ∈ obj.profileList) :
    obj.dump p = .ok () := by
  have hstripped := h.stripped p hp
  have hstrings := h.strings p hp
  cases p with
  | internetIop iiopVersion host port objectKey components =>
    obtain ⟨str, hstr⟩ := readString_ok.2 (hstrings host List.mem_cons_self)
    have hnone : objectKey = none := hstripped
    rw [Reference.dump, if_neg (not_not.2 hnone), if_neg h.key, hstr]
    rfl
  | genericIop iiopVersion proto host service components =>
    simp only [IopProfile.strings, List.forall_mem_cons] at hstrings
    obtain ⟨hproto, hhost, hservice, _⟩ := hstrings
    obtain ⟨proto', hproto⟩ := readString_ok.2 hproto
    obtain ⟨host', hhost⟩ := readString_ok.2 hhost
    obtain ⟨service', hservice⟩ := readString_ok.2 hservice
    rw [Reference.dump, hproto, hservice, hhost]
    rfl
  | orbitSpecific unixSockPath ipv6Port objectKey =>
    obtain ⟨str, hstr⟩ := readString_ok.2 (hstrings unixSockPath List.mem_cons_self)
    have hnone : objectKey = none := hstripped
    rw [Reference.dump, if_neg (not_not.2 hnone), if_neg h.key, hstr]
    rfl
  | multipleComponents components => rfl
  | unknown profileType data => rfl

end Reference.Sound

theorem terminated_append (bytes : List UInt8) : Terminated (some (bytes ++ [0])) :=
  ⟨_, rfl, List.mem_append_right bytes List.mem_cons_self⟩

/-- Three strings with an end are enough for a connection. -/
theorem initiateConnection_ok {p : IopProfile Block} (hp : ∀ s ∈ p.strings, Terminated s) :
    initiateConnection p = .ok () := by
  have hinfo : ∀ info ∈ p.getInfo, Terminated info.1 ∧ Terminated info.2.1 ∧ Terminated info.2.2 := by
    intro info h
    cases p with
    | internetIop iiopVersion host port objectKey components =>
      cases h
      exact ⟨terminated_append _, hp host List.mem_cons_self, terminated_append _⟩
    | genericIop iiopVersion proto host service components =>
      cases h
      simp only [IopProfile.strings, List.forall_mem_cons] at hp
      exact ⟨hp.1, hp.2.1, hp.2.2.1⟩
    | orbitSpecific unixSockPath ipv6Port objectKey =>
      rw [IopProfile.getInfo] at h
      split at h
      · cases h
        exact ⟨terminated_append _, terminated_append [], hp unixSockPath List.mem_cons_self⟩
      · cases h
    | multipleComponents components => cases h
    | unknown profileType data => cases h
  rw [initiateConnection]
  cases hget : p.getInfo with
  | none => rfl
  | some info =>
    obtain ⟨proto, host, service⟩ := info
    obtain ⟨hproto, hhost, hservice⟩ := hinfo _ hget
    obtain ⟨proto', hproto⟩ := readString_ok.2 hproto
    obtain ⟨host', hhost'⟩ := readString_ok.2 hhost
    obtain ⟨service', hservice⟩ := readString_ok.2 hservice
    have hne : host ≠ none := by
      rintro rfl
      cases hhost'
    simp only [if_neg hne, hproto, hhost', hservice]
    rfl

theorem Reference.Sound.withstands {obj : Reference} (h : obj.Sound) : obj.Withstands where
  key := h.key
  profiles := h.profiles
  equal := fun _ ho => ⟨h.equal ho, ho.equal h⟩
  lookup := fun objrefs hobjrefs => by
    have htable : ∀ table ∈ some objrefs, ∀ r ∈ table, r.Sound := by
      rintro _ ⟨⟩
      exact hobjrefs
    obtain ⟨found, hfound, _⟩ := h.lookup htable
    exact ⟨found, hfound⟩
  marshal := h.marshal
  dump := fun _ hp => h.dump hp
  connection := fun p hp => initiateConnection_ok (h.strings p hp)

/-! ### What is received -/

/-- The references in the table can be used. -/
def SoundTable (objrefs : Option (List Reference)) : Prop := ∀ table ∈ objrefs, ∀ r ∈ table, r.Sound

/-- The bytes are no reference at all, or nil; or a type id and strings that are there and have an
end, with a profile that has the key. -/
def Acceptable (c : RecvCursor) : Prop :=
  match demarshalIOR c with
  | .error e => e = .fail
  | .ok (none, _) => True
  | .ok (some (typeId, profiles), _) =>
      0 ∈ typeId ∧ (∃ p ∈ profiles, p.carriesKey) ∧ ∀ p ∈ profiles, ∀ s ∈ p.strings, Terminated s

/-- `ORBit_demarshal_object` fails, or returns nil or a reference that can be used, and leaves such
a table. -/
def Received (objrefs : Option (List Reference)) (c : RecvCursor) : Prop :=
  ∃ d, demarshalObject objrefs c = .ok d ∧
    ∀ obj objrefs', d = .reference obj objrefs' → obj.Withstands ∧ SoundTable objrefs'

theorem objrefFind_sound {objrefs : Option (List Reference)} (hobjrefs : SoundTable objrefs)
    {typeId : List UInt8} {profiles : List (IopProfile Block)} (htypeId : 0 ∈ typeId)
    (hgiven : ∀ p ∈ profiles, p.KeysGiven) (hkey : ∃ p ∈ profiles, p.carriesKey)
    (hstrings : ∀ p ∈ profiles, ∀ s ∈ p.strings, Terminated s) :
    ∃ obj objrefs', objrefFind objrefs (some typeId) profiles = .ok (obj, objrefs') ∧ obj.Sound ∧
      SoundTable objrefs' := by
  obtain ⟨str, hstr⟩ := readString_ok.2 ⟨typeId, rfl, htypeId⟩
  obtain ⟨key, profiles', hsync, hfound, hstripped, hmap⟩ := syncProfiles_given hgiven none
  rw [List.any_eq_true.2 hkey, Bool.or_true] at hfound
  have hmem : ∀ p ∈ profiles', ∃ q ∈ profiles, p.strings = q.strings := by
    intro p hp
    have hp := @List.mem_map_of_mem _ _ _ _ IopProfile.strings hp
    rw [hmap] at hp
    obtain ⟨q, hq, h⟩ := List.mem_map.1 hp
    exact ⟨q, hq, h.symm⟩
  have hsound : (⟨str, key, profiles'⟩ : Reference).Sound :=
    { key := Option.isSome_iff_ne_none.1 hfound
      profiles := by
        rintro rfl
        obtain ⟨p, hp, _⟩ := hkey
        cases profiles with
        | nil => cases hp
        | cons q qs => cases hmap
      stripped := hstripped
      strings := by
        intro p hp
        obtain ⟨q, hq, h⟩ := hmem p hp
        rw [h]
        exact hstrings q hq }
  obtain ⟨found, hlookup, hsoundFound⟩ := hsound.lookup hobjrefs
  rw [objrefFind, hstr, Outcomes.ok_bind, profilesSyncObjkey, hsync]
  simp only [Outcomes.ok_bind, hlookup]
  cases found with
  | some registered => exact ⟨registered, objrefs, rfl, hsoundFound registered rfl, hobjrefs⟩
  | none =>
    refine ⟨_, some (objrefs.getD [] ++ [⟨str, key, profiles'⟩]), ?_, hsound, ?_⟩
    · simp only [registerObjref, if_neg hsound.key, if_neg (mt List.isEmpty_iff.1 hsound.profiles)]
      rfl
    · rintro _ ⟨⟩ r hr
      rcases List.mem_append.1 hr with hr | hr
      · cases objrefs with
        | none => cases hr
        | some table => exact hobjrefs table rfl r hr
      · rw [List.mem_singleton.1 hr]
        exact hsound

/-- A first reference that is registered and can be written has a key, and strings with an end. -/
theorem acceptable_of_objrefFind {typeId : List UInt8} {profiles : List (IopProfile Block)}
    {obj : Reference} {objrefs' : Option (List Reference)} (hgiven : ∀ p ∈ profiles, p.KeysGiven)
    (hfind : objrefFind none (some typeId) profiles = .ok (obj, objrefs')) (hobj : obj.Withstands) :
    0 ∈ typeId ∧ (∃ p ∈ profiles, p.carriesKey) ∧
      ∀ p ∈ profiles, ∀ s ∈ p.strings, Terminated s := by
  obtain ⟨str, hstr, hfind⟩ := Outcomes.of_bind hfind
  obtain ⟨key, profiles', hsync, hfound, _, hmap⟩ := syncProfiles_given hgiven none
  rw [profilesSyncObjkey, hsync] at hfind
  simp only [Outcomes.ok_bind, lookupObjref] at hfind
  obtain ⟨table, htable, hfind⟩ := Outcomes.of_bind hfind
  cases hfind
  rw [registerObjref] at htable
  obtain ⟨hkey, _⟩ := Outcomes.of_guard htable
  obtain ⟨_, hbytes, hzero⟩ := readString_ok.1 ⟨str, hstr⟩
  cases hbytes
  refine ⟨hzero, ?_, ?_⟩
  · rw [Option.isSome_none, Bool.false_or] at hfound
    rw [← List.any_eq_true, ← hfound]
    exact Option.isSome_iff_ne_none.2 hkey
  · obtain ⟨w, hw⟩ := hobj.marshal .big
    obtain ⟨_, hw⟩ := Outcomes.of_guard hw
    obtain ⟨written, hwritten, _⟩ := Outcomes.of_bind hw
    have hread := mapM_ok_iff.1 ⟨written, hwritten⟩
    intro p hp
    have hp := @List.mem_map_of_mem _ _ _ _ IopProfile.strings hp
    rw [← hmap] at hp
    obtain ⟨q, hq, h⟩ := List.mem_map.1 hp
    rw [← h]
    exact IopProfile.readStrings_ok.1 (hread q hq)

/-- References can be received and used, whichever are known already, exactly where they are
acceptable. -/
theorem received_iff_acceptable (c : RecvCursor) :
    (∀ objrefs, SoundTable objrefs → Received objrefs c) ↔ Acceptable c := by
  constructor
  · intro h
    obtain ⟨d, hd, hreference⟩ := h none nofun
    rw [demarshalObject] at hd
    rw [Acceptable]
    cases hior : demarshalIOR c with
    | error e =>
      rw [hior] at hd
      cases e with
      | fail => rfl
      | undefined => cases hd
    | ok r =>
      obtain ⟨ior, c'⟩ := r
      cases ior with
      | none => trivial
      | some ior =>
        obtain ⟨typeId, profiles⟩ := ior
        rw [hior] at hd
        obtain ⟨⟨obj, objrefs'⟩, hfind, hd⟩ := Outcomes.of_bind hd
        have hgiven := Dec.Yields.demarshalIOR hior typeId profiles rfl
        exact acceptable_of_objrefFind hgiven hfind (hreference obj objrefs' (Except.ok.inj hd).symm).1
  · intro h objrefs hobjrefs
    rw [Acceptable] at h
    rw [Received, demarshalObject]
    cases hior : demarshalIOR c with
    | error e =>
      rw [hior] at h
      have hfail : e = .fail := h
      subst hfail
      exact ⟨.failed, rfl, nofun⟩
    | ok r =>
      obtain ⟨ior, c'⟩ := r
      cases ior with
      | none => exact ⟨.nil, rfl, nofun⟩
      | some ior =>
        obtain ⟨typeId, profiles⟩ := ior
        rw [hior] at h
        obtain ⟨htypeId, hkey, hstrings⟩ := h
        have hgiven := Dec.Yields.demarshalIOR hior typeId profiles rfl
        obtain ⟨obj, objrefs', hfind, hsound, htable⟩ :=
          objrefFind_sound hobjrefs htypeId hgiven hkey hstrings
        refine ⟨.reference obj objrefs', ?_, ?_⟩
        · simp only [hfind]
          rfl
        · rintro _ _ ⟨⟩
          exact ⟨hsound.withstands, htable⟩

/-- The bytes of a message, in the other byte order of a little host. -/
def arrivedBytes (data : List UInt8) : RecvCursor := ⟨0, data, 0, .little, .big⟩

/-- A type id, and no profiles. -/
def typeIdOnly : List UInt8 := [0, 0, 0, 2, 65, 0, 0, 0, 0, 0, 0, 0]

/-- One profile that is not known. -/
def unknownProfileOnly : List UInt8 :=
  [0, 0, 0, 2, 65, 0, 0, 0, 0, 0, 0, 1, 0, 0, 0, 2, 0, 0, 0, 0]

/-- An IIOP profile with a key and a host of length 0. -/
def noHost : List UInt8 :=
  [0, 0, 0, 2, 65, 0, 0, 0, 0, 0, 0, 1, 0, 0, 0, 0, 0, 0, 0, 24, 0, 1, 2, 0, 0, 0, 0, 0, 0, 80, 0, 0,
    0, 0, 0, 1, 1, 0, 0, 0, 0, 0, 0, 0]

def noHostReference : Reference :=
  ⟨⟨[65], by decide⟩, some [1], [.internetIop .v1_2 none 80 none []]⟩

/-- References without profiles or without a key fail an assertion when they are received, and one
without a host is received and fails when it is compared or written. -/
theorem hostile_references_fail :
    demarshalObject none (arrivedBytes typeIdOnly) = .error .assertion ∧
    demarshalObject none (arrivedBytes unknownProfileOnly) = .error .assertion ∧
    demarshalObject none (arrivedBytes noHost) = .ok (.reference noHostReference (some [noHostReference])) ∧
    noHostReference.equal noHostReference = .error .missing ∧
    (noHostReference.marshal .little).map (fun _ => ()) = .error .missing ∧
    ¬ Received none (arrivedBytes typeIdOnly) ∧ ¬ Received none (arrivedBytes noHost) := by
  have htypeId : demarshalObject none (arrivedBytes typeIdOnly) = .error .assertion := by decide_cbv
  have hnoHost : demarshalObject none (arrivedBytes noHost) =
      .ok (.reference noHostReference (some [noHostReference])) := by decide_cbv
  have hmarshal : (noHostReference.marshal .little).map (fun _ => ()) = .error .missing := by
    decide_cbv
  refine ⟨htypeId, by decide_cbv, hnoHost, by decide +kernel, hmarshal, ?_, ?_⟩
  · rintro ⟨d, hd, _⟩
    rw [htypeId] at hd
    cases hd
  · rintro ⟨d, hd, h⟩
    rw [hnoHost] at hd
    obtain ⟨w, hw⟩ := (h _ _ (Except.ok.inj hd).symm).1.marshal .little
    rw [hw] at hmarshal
    cases hmarshal

end ORBit2
