import ORBit2.Base.Runs

/-! The key of a reference under location forwards (corba-object.c, iop-profiles.c): who owns it,
which one it is when a connection is returned, and what becomes of the others. -/

set_option autoImplicit false

namespace ORBit2.Forward

open Runs

/-- An object key in memory; no two allocations have the same `id`. -/
structure Key where
  id : Nat
  bytes : List UInt8
  deriving DecidableEq, Repr

inductive Component (κ : Type) where
  | completeObjectKey (objectKey : κ)
  | other
  deriving DecidableEq, Repr

/-- `IOP_Profile_info`; an empty path is also one that is NULL. -/
inductive Profile (κ : Type) where
  | internetIop (host : String) (objectKey : κ)
  | genericIop (proto host : String)
  | orbitSpecific (unixSockPath : String) (objectKey : κ)
  | multipleComponents (components : List (Component κ))
  | unknown
  deriving DecidableEq, Repr

section Profiles
variable {κ μ : Type}

def Component.map (f : κ → μ) : Component κ → Component μ
  | .completeObjectKey objectKey => .completeObjectKey (f objectKey)
  | .other => .other

def Component.key : Component κ → List κ
  | .completeObjectKey objectKey => [objectKey]
  | .other => []

@[grind =] def Profile.map (f : κ → μ) : Profile κ → Profile μ
  | .internetIop host objectKey => .internetIop host (f objectKey)
  | .genericIop proto host => .genericIop proto host
  | .orbitSpecific unixSockPath objectKey => .orbitSpecific unixSockPath (f objectKey)
  | .multipleComponents components => .multipleComponents (components.map (Component.map f))
  | .unknown => .unknown

/-- The keys that `IOP_profiles_sync_objkey` visits in a profile. -/
def Profile.keys : Profile κ → List κ
  | .internetIop _ objectKey | .orbitSpecific _ objectKey => [objectKey]
  | .multipleComponents components => components.flatMap Component.key
  | .genericIop _ _ | .unknown => []

def keysOf (profiles : List (Profile κ)) : List κ := profiles.flatMap Profile.keys

/-- `IOP_profile_get_info`: the protocol and the host. -/
def Profile.getInfo : Profile κ → Option (String × String)
  | .internetIop host _ => some ("IPv4", host)
  | .genericIop proto host => some (proto, host)
  | .orbitSpecific unixSockPath _ => if unixSockPath = "" then none else some ("UNIX", "")
  | .multipleComponents _ | .unknown => none

/-- One of the profiles says where to connect to. -/
def Usable (profiles : List (Profile κ)) : Prop := ∃ profile ∈ profiles, profile.getInfo.isSome

instance (profiles : List (Profile κ)) : Decidable (Usable profiles) :=
  inferInstanceAs (Decidable (∃ profile ∈ profiles, profile.getInfo.isSome = true))

end Profiles

/-- The allocations of a demarshalled component. -/
def Component.allocate (n : Nat) : Component (List UInt8) → Component (Option Key)
  | .completeObjectKey bytes => .completeObjectKey (some ⟨n, bytes⟩)
  | .other => .other

@[grind =] def allocateComponents : Nat → List (Component (List UInt8)) → List (Component (Option Key))
  | _, [] => []
  | n, component :: components =>
      component.allocate n :: allocateComponents (n + component.key.length) components

def Profile.allocate (n : Nat) : Profile (List UInt8) → Profile (Option Key)
  | .internetIop host bytes => .internetIop host (some ⟨n, bytes⟩)
  | .genericIop proto host => .genericIop proto host
  | .orbitSpecific unixSockPath bytes => .orbitSpecific unixSockPath (some ⟨n, bytes⟩)
  | .multipleComponents components => .multipleComponents (allocateComponents n components)
  | .unknown => .unknown

/-- The profiles that `ORBit_demarshal_IOR` has read, every key in an allocation of its own. -/
@[grind =] def allocate : Nat → List (Profile (List UInt8)) → List (Profile (Option Key))
  | _, [] => []
  | n, profile :: profiles => profile.allocate n :: allocate (n + profile.keys.length) profiles

/-- `unix_socket_enabled`, `ipv4_ipv6_enabled` and `link_get_local_hostname`. -/
structure Host where
  unixEnabled : Bool
  ipEnabled : Bool
  localHostname : String
  deriving DecidableEq, Repr

/-- The profile loop of `ORBit_object_get_connection`: whether it ends with a connection, and
whether obj->connection is set then. An attempt is the result of `giop_connection_initiate`, NULL or
a connection for which `ORBit_try_connection_T` says whether it gets connected. -/
@[grind =] def connectLoop {κ : Type} (host : Host) (unixFailed connection : Bool) :
    List (Profile κ) → List (Option Bool) → Bool × Bool
  | [], _ => (false, connection)
  | profile :: profiles, attempts =>
      match profile.getInfo with
      | none => connectLoop host unixFailed connection profiles attempts
      | some (proto, name) =>
          if unixFailed && host.ipEnabled && name == host.localHostname then
            connectLoop host unixFailed connection profiles attempts
          else
            match attempts.head?.join with
            | none =>
                connectLoop host
                  (unixFailed || host.unixEnabled && host.ipEnabled && proto == "UNIX")
                  false profiles attempts.tail
            | some true => (true, true)
            | some false => connectLoop host unixFailed true profiles attempts.tail

/-- `IOP_profiles_sync_objkey`, with the key found so far: the key and the keys it frees, and
nothing when a key is compared with NULL. -/
@[grind =] def syncObjkey : Option Key → List (Option Key) → Option (Option Key × List Key)
  | objkey, [] => some (objkey, [])
  | none, own :: keys => syncObjkey own keys
  | some objkey, some own :: keys =>
      (syncObjkey (some objkey) keys).map fun (objkey, freed) => (objkey, own :: freed)
  | some _, none :: _ => none

/-- An object reference. `connection` says whether obj->connection is set, `returned` whether the
last call has returned a connection; `freed` are the keys that have been freed, `held` those that
have been obj->object_key; `target` is the key of the reference forwarded to. -/
structure State where
  nextId : Nat
  objectKey : Option Key
  profileList : List (Profile (Option Key))
  forwardLocations : List (Profile (Option Key))
  connection : Bool
  returned : Bool
  fault : Bool
  released : Bool
  freed : List Key
  held : List Key
  original : List UInt8
  target : Option (List UInt8)

/-- A connection that has been dropped stays in obj->connection: `reconnect` says whether
`ORBit_try_connection_T` finds it connected or gets it connected again. -/
inductive Event where
  | getConnection (reconnect : Bool) (attempts : List (Option Bool))
  | forward (profiles : List (Profile (List UInt8))) (attempts : List (Option Bool))
  | release
  deriving DecidableEq, Repr

namespace State

/-- The profiles that `ORBit_object_get_connection` goes through. -/
def locations (s : State) : List (Profile (Option Key)) :=
  if s.forwardLocations = [] then s.profileList else s.forwardLocations

/-- The keys that are freed with the object. -/
def owned (s : State) : List Key :=
  s.objectKey.toList ++ (keysOf s.profileList).reduceOption ++
    (keysOf s.forwardLocations).reduceOption

/-- `ORBit_object_get_connection`. -/
def getConnection (host : Host) (s : State) (reconnect : Bool) (attempts : List (Option Bool)) :
    State :=
  if s.connection then { s with returned := reconnect }
  else if s.forwardLocations = [] then
    let (connected, connection) := connectLoop host false false s.profileList attempts
    { s with
      connection := connection
      returned := connected
      fault := connected && s.objectKey.isNone }
  else
    match syncObjkey none (keysOf s.forwardLocations) with
    | none => { s with returned := false, fault := true }
    | some (objkey, freed) =>
        let s := { s with
          forwardLocations := s.forwardLocations.map (Profile.map fun _ => none)
          freed := s.freed ++ freed }
        match connectLoop host false false s.forwardLocations attempts with
        | (false, connection) => { s with connection := connection, returned := false }
        | (true, connection) =>
            match s.objectKey, objkey with
            | some _, some key =>
                { s with
                  objectKey := some key
                  held := s.held ++ [key]
                  connection := connection
                  returned := true }
            | _, _ => { s with returned := false, fault := true }

/-- `ORBit_handle_location_forward`, once the reference is read. -/
def handleLocationForward (host : Host) (s : State) (profiles : List (Profile (List UInt8)))
    (attempts : List (Option Bool)) : State :=
  getConnection host { s with
    nextId := s.nextId + (keysOf profiles).length
    freed := s.freed ++ (keysOf s.forwardLocations).reduceOption
    forwardLocations := allocate s.nextId profiles
    connection := false
    target := if profiles = [] then some s.original else (keysOf profiles).head? } false attempts

/-- `CORBA_Object_release_cb`. -/
def release (s : State) : State :=
  { s with
    objectKey := none
    profileList := []
    forwardLocations := []
    connection := false
    returned := false
    released := true
    freed := s.freed ++ s.owned }

end State

def step (host : Host) (s : State) : Event → State
  | .getConnection reconnect attempts =>
      if s.fault || s.released then s else s.getConnection host reconnect attempts
  | .forward profiles attempts =>
      if s.fault || s.released then s else s.handleLocationForward host profiles attempts
  | .release => if s.fault || s.released then s else s.release

/-- A reference as it has been demarshalled: its key is its own, the profiles are without. -/
def initial (bytes : List UInt8) (profiles : List (Profile Unit)) : State where
  nextId := 1
  objectKey := some ⟨0, bytes⟩
  profileList := profiles.map (Profile.map fun _ => none)
  forwardLocations := []
  connection := false
  returned := false
  fault := false
  released := false
  freed := []
  held := [⟨0, bytes⟩]
  original := bytes
  target := some bytes

/-- obj->object_key is the key of the reference forwarded to. -/
def State.RightKey (s : State) : Prop :=
  ∃ key, s.objectKey = some key ∧ s.target = some key.bytes

/-- No NULL key is compared or stored, a connection is returned with the right key, the key is alive
and nothing is freed twice; and whatever has failed, the next attempt does as well, and gets a
connection where there is one to get. -/
structure KeySafe (host : Host) (s : State) : Prop where
  clean : s.fault = false
  right : s.returned = true → s.RightKey
  live : s.released = false → ∃ key, s.objectKey = some key ∧ key ∉ s.freed
  once : s.freed.Nodup
  able : s.released = false → ∀ reconnect attempts,
    (step host s (.getConnection reconnect attempts)).fault = false ∧
      ((step host s (.getConnection reconnect attempts)).returned = true →
        (step host s (.getConnection reconnect attempts)).RightKey)
  again : s.released = false → Usable s.locations →
    (step host s (.getConnection true [some true])).returned = true

/-- Every key that has been obj->object_key is owned, by one place, until it is freed, once. -/
def FreedOnce (s : State) : Prop := ∀ key ∈ s.held, (s.freed ++ s.owned).count key = 1

/-- A forward that the reference gets along with: there is nothing to connect to; or it is a forward
to nil, with the original key still there; or there is a key and the first attempts get a
connection, or leave one behind that does not connect, the key being the one that is there. -/
def Kept (host : Host) (s : State) : Event → Prop
  | .forward profiles attempts =>
      s.fault = true ∨ s.released = true ∨
      if profiles = [] then
        ¬ Usable s.profileList ∨ s.objectKey.map Key.bytes = some s.original
      else
        ¬ Usable profiles ∨ ∃ bytes, (keysOf profiles).head? = some bytes ∧
          ((connectLoop host false false profiles attempts).1 = true ∨
            (connectLoop host false false profiles attempts).2 = true ∧
              s.objectKey.map Key.bytes = some bytes)
  | _ => True

/-- A forward whose first attempts get a connection. -/
def Replaces (host : Host) (s : State) : Event → Prop
  | .forward profiles attempts =>
      s.fault = false ∧ s.released = false ∧ profiles ≠ [] ∧
        (connectLoop host false false profiles attempts).1 = true
  | _ => False

/-! ### The profiles -/

section Profiles
variable {κ μ : Type}

@[simp] theorem keysOf_nil : keysOf ([] : List (Profile κ)) = [] := rfl

@[simp] theorem keysOf_cons (profile : Profile κ) (profiles : List (Profile κ)) :
    keysOf (profile :: profiles) = profile.keys ++ keysOf profiles := rfl

theorem keys_map (f : κ → μ) (profile : Profile κ) :
    (profile.map f).keys = profile.keys.map f := by
  cases profile with
  | multipleComponents components =>
    simp only [Profile.map, Profile.keys, List.map_flatMap, List.flatMap_map]
    refine List.flatMap_congr fun component _ => ?_
    cases component <;> rfl
  | internetIop | genericIop | orbitSpecific | unknown => rfl

theorem keysOf_map (f : κ → μ) (profiles : List (Profile κ)) :
    keysOf (profiles.map (Profile.map f)) = (keysOf profiles).map f := by
  induction profiles with
  | nil => rfl
  | cons profile profiles ih =>
    rw [List.map_cons, keysOf_cons, keysOf_cons, keys_map, ih, List.map_append]

theorem getInfo_map (f : κ → μ) (profile : Profile κ) :
    (profile.map f).getInfo = profile.getInfo := by
  cases profile <;> rfl

theorem getInfo_allocate (n : Nat) (profile : Profile (List UInt8)) :
    (profile.allocate n).getInfo = profile.getInfo := by
  cases profile <;> rfl

theorem getInfos_map (f : κ → μ) (profiles : List (Profile κ)) :
    (profiles.map (Profile.map f)).map Profile.getInfo = profiles.map Profile.getInfo := by
  rw [List.map_map]
  exact List.map_congr_left fun profile _ => getInfo_map f profile

theorem getInfos_allocate (n : Nat) (profiles : List (Profile (List UInt8))) :
    (allocate n profiles).map Profile.getInfo = profiles.map Profile.getInfo := by
  induction profiles generalizing n with
  | nil => rfl
  | cons profile profiles ih =>
    rw [allocate, List.map_cons, List.map_cons, getInfo_allocate, ih]

theorem usable_iff (profiles : List (Profile κ)) :
    Usable profiles ↔ ∃ info ∈ profiles.map Profile.getInfo, info.isSome = true := by
  simp [Usable]

/-- Only what `IOP_profile_get_info` says counts for the attempts. -/
theorem connectLoop_congr (host : Host) {profiles : List (Profile κ)} {others : List (Profile μ)}
    (h : profiles.map Profile.getInfo = others.map Profile.getInfo) (unixFailed connection : Bool)
    (attempts : List (Option Bool)) :
    connectLoop host unixFailed connection profiles attempts =
      connectLoop host unixFailed connection others attempts := by
  induction profiles generalizing others unixFailed connection attempts with
  | nil => rw [List.map_eq_nil_iff.mp h.symm, connectLoop, connectLoop]
  | cons profile profiles ih =>
    cases others with
    | nil => cases h
    | cons other others =>
      obtain ⟨hinfo, hrest⟩ := List.cons.inj h
      simp only [connectLoop, hinfo]
      cases other.getInfo with
      | none => exact ih hrest ..
      | some info =>
        simp only [ih hrest]

theorem connectLoop_unusable (host : Host) {profiles : List (Profile κ)} (h : ¬ Usable profiles)
    (unixFailed connection : Bool) (attempts : List (Option Bool)) :
    connectLoop host unixFailed connection profiles attempts = (false, connection) := by
  induction profiles with
  | nil => rfl
  | cons profile profiles ih =>
    have hinfo : profile.getInfo = none := by
      by_contra hne
      exact h ⟨profile, List.mem_cons_self, Option.isSome_iff_ne_none.mpr hne⟩
    simp only [connectLoop, hinfo]
    exact ih fun ⟨other, hmem, hsome⟩ => h ⟨other, List.mem_cons_of_mem _ hmem, hsome⟩

theorem connectLoop_connected (host : Host) (profiles : List (Profile κ))
    (unixFailed connection : Bool) (attempts : List (Option Bool))
    (h : (connectLoop host unixFailed connection profiles attempts).1 = true) :
    (connectLoop host unixFailed connection profiles attempts).2 = true := by
  fun_induction connectLoop host unixFailed connection profiles attempts with
  | case1 => cases h
  | case5 => rfl
  | case2 _ _ _ _ _ _ ih | case3 _ _ _ _ _ _ _ _ _ ih | case4 _ _ _ _ _ _ _ _ _ _ ih
  | case6 _ _ _ _ _ _ _ _ _ _ ih => exact ih h

theorem connectLoop_connects (host : Host) {profiles : List (Profile κ)} (h : Usable profiles)
    (connection : Bool) :
    connectLoop host false connection profiles [some true] = (true, true) := by
  induction profiles with
  | nil =>
    obtain ⟨_, hmem, _⟩ := h
    cases hmem
  | cons profile profiles ih =>
    cases hinfo : profile.getInfo with
    | none =>
      simp only [connectLoop, hinfo]
      refine ih ?_
      obtain ⟨other, hmem, hsome⟩ := h
      rcases List.mem_cons.mp hmem with rfl | hmem
      · rw [hinfo] at hsome
        cases hsome
      · exact ⟨other, hmem, hsome⟩
    | some info => simp [connectLoop, hinfo]

end Profiles

/-! ### The keys -/

/-- The allocations of some keys. -/
@[grind =] def numbered : Nat → List (List UInt8) → List Key
  | _, [] => []
  | n, bytes :: keys => ⟨n, bytes⟩ :: numbered (n + 1) keys

theorem numbered_append (n : Nat) (keys keys' : List (List UInt8)) :
    numbered n (keys ++ keys') = numbered n keys ++ numbered (n + keys.length) keys' := by
  induction keys generalizing n with
  | nil => rfl
  | cons bytes keys ih =>
    simp only [List.cons_append, numbered, ih, List.length_cons]
    rw [Nat.add_right_comm, Nat.add_assoc]

theorem numbered_bound {n : Nat} {keys : List (List UInt8)} {key : Key}
    (h : key ∈ numbered n keys) : n ≤ key.id ∧ key.id < n + keys.length := by
  induction keys generalizing n with
  | nil => cases h
  | cons bytes keys ih =>
    rw [List.length_cons]
    rcases List.mem_cons.mp h with rfl | hmem
    · exact ⟨Nat.le_refl _, by simp⟩
    · have hbound := ih hmem
      omega

theorem numbered_nodup (n : Nat) (keys : List (List UInt8)) : (numbered n keys).Nodup := by
  induction keys generalizing n with
  | nil => exact List.nodup_nil
  | cons bytes keys ih =>
    refine List.nodup_cons.mpr ⟨fun hmem => ?_, ih _⟩
    exact absurd (numbered_bound hmem).1 (Nat.not_succ_le_self n)

theorem keysOf_allocateComponents (n : Nat) (components : List (Component (List UInt8))) :
    (allocateComponents n components).flatMap Component.key =
      (numbered n (components.flatMap Component.key)).map some := by
  induction components generalizing n with
  | nil => rfl
  | cons component components ih =>
    rw [allocateComponents, List.flatMap_cons, List.flatMap_cons, numbered_append, ih,
      List.map_append]
    cases component <;> rfl

theorem keys_allocate (n : Nat) (profile : Profile (List UInt8)) :
    (profile.allocate n).keys = (numbered n profile.keys).map some := by
  cases profile with
  | multipleComponents components => exact keysOf_allocateComponents n components
  | internetIop | genericIop | orbitSpecific | unknown => rfl

theorem keysOf_allocate (n : Nat) (profiles : List (Profile (List UInt8))) :
    keysOf (allocate n profiles) = (numbered n (keysOf profiles)).map some := by
  induction profiles generalizing n with
  | nil => rfl
  | cons profile profiles ih =>
    rw [allocate, keysOf_cons, keysOf_cons, numbered_append, keys_allocate, ih, List.map_append]

theorem syncObjkey_bare {keys : List (Option Key)} (h : ∀ key ∈ keys, key = none) :
    syncObjkey none keys = some (none, []) := by
  induction keys with
  | nil => rfl
  | cons key keys ih =>
    rw [h key List.mem_cons_self, syncObjkey]
    exact ih fun other hmem => h other (List.mem_cons_of_mem _ hmem)

theorem syncObjkey_given (objkey : Key) (keys : List Key) :
    syncObjkey (some objkey) (keys.map some) = some (some objkey, keys) := by
  induction keys with
  | nil => rfl
  | cons key keys ih => rw [List.map_cons, syncObjkey, ih, Option.map_some]

/-- The first key is kept, the others are freed. -/
theorem syncObjkey_fresh (keys : List Key) :
    syncObjkey none (keys.map some) = some (keys.head?, keys.tail) := by
  cases keys with
  | nil => rfl
  | cons key keys => exact syncObjkey_given key keys

theorem reduceOption_bare {keys : List (Option Key)} (h : ∀ key ∈ keys, key = none) :
    keys.reduceOption = [] := by
  induction keys with
  | nil => rfl
  | cons key keys ih =>
    rw [h key List.mem_cons_self, List.reduceOption, List.filterMap_cons_none rfl]
    exact ih fun other hmem => h other (List.mem_cons_of_mem _ hmem)

/-! ### The reference -/

/-- What holds of the reference before and after every call, as long as it gets along with its
forwards. -/
structure Sound (s : State) : Prop where
  clean : s.fault = false
  key : s.released = false → ∃ key, s.objectKey = some key
  ended : s.released = true → s.objectKey = none ∧ s.returned = false
  bareList : ∀ key ∈ keysOf s.profileList, key = none
  bareForward : ∀ key ∈ keysOf s.forwardLocations, key = none
  nodup : (s.freed ++ s.objectKey.toList).Nodup
  bound : ∀ key ∈ s.freed ++ s.objectKey.toList ++ s.held, key.id < s.nextId
  holds : ∀ key ∈ s.objectKey.toList, key ∈ s.held
  returns : s.returned = true → s.connection = true
  ready : s.released = false → s.connection = false ∧ ¬ Usable s.locations ∨
    s.RightKey ∧ (s.forwardLocations = [] ∨ s.connection = true)

theorem Sound.owned {s : State} (h : Sound s) : s.owned = s.objectKey.toList := by
  rw [State.owned, reduceOption_bare h.bareList, reduceOption_bare h.bareForward, List.append_nil,
    List.append_nil]

theorem bare_strip {κ : Type} (profiles : List (Profile κ)) :
    ∀ key ∈ keysOf (profiles.map (Profile.map fun _ => (none : Option Key))), key = none := by
  intro key hkey
  rw [keysOf_map] at hkey
  obtain ⟨_, -, rfl⟩ := List.mem_map.mp hkey
  rfl

/-- The profiles after another look at them, and what there is to connect to. -/
theorem locations_strip {s s' : State} (husable : Usable s'.locations)
    (hlist : s'.profileList = s.profileList)
    (hforward : s'.forwardLocations = s.forwardLocations.map (Profile.map fun _ => none)) :
    Usable s.locations := by
  unfold State.locations at *
  rw [hforward, hlist] at husable
  by_cases hnil : s.forwardLocations = []
  · simpa [hnil] using husable
  · rw [if_neg (by simpa using hnil), usable_iff, getInfos_map, ← usable_iff] at husable
    rwa [if_neg hnil]

theorem sound_getConnection (host : Host) {s : State} (h : Sound s) (hlive : s.released = false)
    (reconnect : Bool) (attempts : List (Option Bool)) :
    Sound (s.getConnection host reconnect attempts) ∧
      (s.getConnection host reconnect attempts).released = false := by
  obtain ⟨key, hkey⟩ := h.key hlive
  unfold State.getConnection
  by_cases hconnection : s.connection = true
  · rw [if_pos hconnection]
    exact ⟨{ h with
      ended := fun hr => absurd (hlive.symm.trans hr) Bool.false_ne_true
      returns := fun _ => hconnection }, hlive⟩
  · rw [if_neg hconnection]
    by_cases hforward : s.forwardLocations = []
    · rw [if_pos hforward]
      refine ⟨{ h with
        clean := by simp [hkey]
        ended := fun hr => absurd (hlive.symm.trans hr) Bool.false_ne_true
        returns := fun hr => connectLoop_connected host _ _ _ _ hr
        ready := fun _ => ?_ }, hlive⟩
      rcases h.ready hlive with ⟨-, hnone⟩ | ⟨hright, -⟩
      · refine .inl ⟨?_, hnone⟩
        have hlist : ¬ Usable s.profileList := by
          rwa [State.locations, if_pos hforward] at hnone
        change (connectLoop host false false s.profileList attempts).2 = false
        rw [connectLoop_unusable host hlist]
      · exact .inr ⟨hright, .inl hforward⟩
    · rw [if_neg hforward, syncObjkey_bare h.bareForward]
      have hnone : ¬ Usable s.forwardLocations := by
        rcases h.ready hlive with ⟨-, hnone⟩ | ⟨-, hnil | hc⟩
        · rwa [State.locations, if_neg hforward] at hnone
        · exact absurd hnil hforward
        · exact absurd hc hconnection
      have hstripped : ¬ Usable (s.forwardLocations.map
          (Profile.map fun _ => (none : Option Key))) := by
        rwa [usable_iff, getInfos_map, ← usable_iff]
      simp only [connectLoop_unusable host hstripped, List.append_nil]
      refine ⟨{ h with
        ended := fun hr => absurd (hlive.symm.trans hr) Bool.false_ne_true
        bareForward := bare_strip s.forwardLocations
        returns := nofun
        ready := fun _ => .inl ⟨rfl, fun husable => ?_⟩ }, hlive⟩
      have hbefore : Usable s.locations := locations_strip husable rfl rfl
      rw [State.locations, if_neg hforward] at hbefore
      exact hnone hbefore

theorem Sound.right {s : State} (h : Sound s) (hreturned : s.returned = true) : s.RightKey := by
  cases hlive : s.released with
  | true => rw [(h.ended hlive).2] at hreturned; cases hreturned
  | false =>
    rcases h.ready hlive with ⟨hno, -⟩ | ⟨hright, -⟩
    · rw [h.returns hreturned] at hno
      cases hno
    · exact hright

theorem step_getConnection (host : Host) {s : State} (hclean : s.fault = false)
    (hlive : s.released = false) (reconnect : Bool) (attempts : List (Option Bool)) :
    step host s (.getConnection reconnect attempts) = s.getConnection host reconnect attempts := by
  simp [step, hclean, hlive]

theorem Sound.keySafe (host : Host) {s : State} (h : Sound s) : KeySafe host s where
  clean := h.clean
  right := h.right
  live hlive := by
    obtain ⟨key, hkey⟩ := h.key hlive
    refine ⟨key, hkey, fun hmem => ?_⟩
    have hnodup := h.nodup
    rw [hkey] at hnodup
    exact (List.nodup_append.mp hnodup).2.2 key hmem key (List.mem_singleton_self _) rfl
  once := (List.nodup_append.mp h.nodup).1
  able hlive reconnect attempts := by
    rw [step_getConnection host h.clean hlive]
    have hnext := (sound_getConnection host h hlive reconnect attempts).1
    exact ⟨hnext.clean, hnext.right⟩
  again hlive husable := by
    rw [step_getConnection host h.clean hlive, State.getConnection]
    cases hconnection : s.connection with
    | true => rfl
    | false =>
      rcases h.ready hlive with ⟨-, hnone⟩ | ⟨-, hnil | hc⟩
      · exact absurd husable hnone
      · rw [State.locations, if_pos hnil] at husable
        simp [hnil, connectLoop_connects host husable]
      · rw [hconnection] at hc
        cases hc

/-! ### A forward -/

/-- The reference when a forward has come with profiles, and they have been visited. -/
def State.visited (s : State) (profiles : List (Profile (List UInt8))) : State :=
  { s with
    nextId := s.nextId + (keysOf profiles).length
    freed := s.freed ++ (numbered s.nextId (keysOf profiles)).tail
    forwardLocations := (allocate s.nextId profiles).map (Profile.map fun _ => none)
    connection := false
    returned := false
    target := (keysOf profiles).head? }

theorem allocate_ne_nil {n : Nat} {profiles : List (Profile (List UInt8))} (h : profiles ≠ []) :
    allocate n profiles ≠ [] := by
  cases profiles with
  | nil => exact absurd rfl h
  | cons profile profiles => exact nofun

theorem infos_visited (n : Nat) (profiles : List (Profile (List UInt8))) :
    ((allocate n profiles).map (Profile.map fun _ => (none : Option Key))).map Profile.getInfo =
      profiles.map Profile.getInfo := by
  rw [getInfos_map, getInfos_allocate]

/-- A forward to nil. -/
theorem forward_nil (host : Host) {s : State} (h : Sound s) (attempts : List (Option Bool)) :
    s.handleLocationForward host [] attempts =
      { s with
        forwardLocations := []
        connection := (connectLoop host false false s.profileList attempts).2
        returned := (connectLoop host false false s.profileList attempts).1
        fault := (connectLoop host false false s.profileList attempts).1 && s.objectKey.isNone
        target := some s.original } := by
  simp [State.handleLocationForward, State.getConnection, allocate,
    reduceOption_bare h.bareForward]

section Forwarded
variable (host : Host) {s : State} {profiles : List (Profile (List UInt8))}
  {attempts : List (Option Bool)}

theorem forward_eq (h : Sound s) (hne : profiles ≠ []) :
    s.handleLocationForward host profiles attempts =
      match connectLoop host false false profiles attempts with
      | (false, connection) =>
          { s.visited profiles with connection := connection, returned := false }
      | (true, connection) =>
          match s.objectKey, (numbered s.nextId (keysOf profiles)).head? with
          | some _, some key =>
              { s.visited profiles with
                objectKey := some key
                held := s.held ++ [key]
                connection := connection
                returned := true }
          | _, _ => { s.visited profiles with returned := false, fault := true } := by
  have hloop := connectLoop_congr host (infos_visited s.nextId profiles) false false attempts
  simp only [State.handleLocationForward, State.getConnection, Bool.false_eq_true, if_false,
    if_neg (allocate_ne_nil hne), keysOf_allocate, syncObjkey_fresh, hloop, if_neg hne,
    reduceOption_bare h.bareForward, List.append_nil]
  rfl

theorem forward_failed (h : Sound s) (hne : profiles ≠ [])
    (hloop : (connectLoop host false false profiles attempts).1 = false) :
    s.handleLocationForward host profiles attempts =
      { s.visited profiles with
        connection := (connectLoop host false false profiles attempts).2 } := by
  rw [forward_eq host h hne]
  generalize connectLoop host false false profiles attempts = result at hloop ⊢
  obtain ⟨connected, connection⟩ := result
  obtain rfl : connected = false := hloop
  rfl

theorem forward_connected (h : Sound s) (hne : profiles ≠ []) {old key : Key}
    (hloop : (connectLoop host false false profiles attempts).1 = true)
    (hold : s.objectKey = some old)
    (hkey : (numbered s.nextId (keysOf profiles)).head? = some key) :
    s.handleLocationForward host profiles attempts =
      { s.visited profiles with
        objectKey := some key
        held := s.held ++ [key]
        connection := true
        returned := true } := by
  have hconnection := connectLoop_connected host _ _ _ _ hloop
  rw [forward_eq host h hne, hold, hkey]
  generalize connectLoop host false false profiles attempts = result at hloop hconnection ⊢
  obtain ⟨connected, connection⟩ := result
  obtain rfl : connected = true := hloop
  obtain rfl : connection = true := hconnection
  rfl

theorem forward_keyless (h : Sound s) (hne : profiles ≠ [])
    (hloop : (connectLoop host false false profiles attempts).1 = true)
    (hkeys : keysOf profiles = []) :
    (s.handleLocationForward host profiles attempts).fault = true := by
  rw [forward_eq host h hne, hkeys]
  generalize connectLoop host false false profiles attempts = result at hloop ⊢
  obtain ⟨connected, connection⟩ := result
  obtain rfl : connected = true := hloop
  cases s.objectKey <;> rfl

end Forwarded

theorem Sound.fresh {s : State} (h : Sound s) (keys : List (List UInt8)) :
    (s.freed ++ s.objectKey.toList ++ numbered s.nextId keys).Nodup := by
  refine List.nodup_append.mpr ⟨h.nodup, numbered_nodup _ _, ?_⟩
  rintro old hold key hkey rfl
  have hlt := h.bound old (List.mem_append_left _ hold)
  have hge := (numbered_bound hkey).1
  omega

theorem numbered_of_head? {n : Nat} {keys : List (List UInt8)} {bytes : List UInt8}
    (h : keys.head? = some bytes) : (numbered n keys).head? = some ⟨n, bytes⟩ := by
  cases keys with
  | nil => cases h
  | cons own keys =>
    cases h
    rfl

theorem locations_forwarded {s : State} {profiles : List (Profile (List UInt8))} {n : Nat}
    (hne : profiles ≠ [])
    (hforward : s.forwardLocations = (allocate n profiles).map (Profile.map fun _ => none)) :
    Usable s.locations ↔ Usable profiles := by
  have hsome : s.forwardLocations ≠ [] := by
    rw [hforward]
    simpa using allocate_ne_nil hne
  rw [State.locations, if_neg hsome, hforward, usable_iff, infos_visited, ← usable_iff]

section Forwarding
variable (host : Host) {s : State} {profiles : List (Profile (List UInt8))}
  {attempts : List (Option Bool)}

theorem sound_failed (h : Sound s) (hlive : s.released = false) (connection : Bool)
    (hready : connection = false ∧ ¬ Usable { s.visited profiles with connection }.locations ∨
      { s.visited profiles with connection }.RightKey ∧ connection = true) :
    Sound { s.visited profiles with connection := connection } where
  clean := h.clean
  key := h.key
  ended hr := absurd (hlive.symm.trans hr) Bool.false_ne_true
  bareList := h.bareList
  bareForward := bare_strip _
  nodup := by
    refine List.nodup_iff_count_le_one.mpr fun key => ?_
    have hfresh := List.nodup_iff_count_le_one.mp (h.fresh (keysOf profiles)) key
    have htail := (List.tail_sublist (numbered s.nextId (keysOf profiles))).count_le key
    change ((s.freed ++ (numbered s.nextId (keysOf profiles)).tail) ++ s.objectKey.toList).count
      key ≤ 1
    simp only [List.count_append] at hfresh ⊢
    omega
  bound key hkey := by
    change key ∈ (s.freed ++ (numbered s.nextId (keysOf profiles)).tail) ++ s.objectKey.toList ++
      s.held at hkey
    change key.id < s.nextId + (keysOf profiles).length
    have hold := h.bound key
    have hnew (hmem : key ∈ (numbered s.nextId (keysOf profiles)).tail) :=
      (numbered_bound (List.mem_of_mem_tail hmem)).2
    simp only [List.mem_append] at hkey hold
    grind
  holds := h.holds
  returns := nofun
  ready _ := hready.imp_right (.imp_right .inr)

theorem sound_connected (h : Sound s) (hlive : s.released = false) {bytes : List UInt8}
    (hbytes : (keysOf profiles).head? = some bytes) :
    Sound { s.visited profiles with
      objectKey := some ⟨s.nextId, bytes⟩
      held := s.held ++ [⟨s.nextId, bytes⟩]
      connection := true
      returned := true } where
  clean := h.clean
  key _ := ⟨_, rfl⟩
  ended hr := absurd (hlive.symm.trans hr) Bool.false_ne_true
  bareList := h.bareList
  bareForward := bare_strip _
  nodup := by
    refine List.nodup_iff_count_le_one.mpr fun key => ?_
    have hfresh := List.nodup_iff_count_le_one.mp (h.fresh (keysOf profiles)) key
    obtain ⟨keys, hkeys⟩ := List.head?_eq_some_iff.mp (numbered_of_head? (n := s.nextId) hbytes)
    change ((s.freed ++ (numbered s.nextId (keysOf profiles)).tail) ++ [_]).count key ≤ 1
    rw [hkeys] at hfresh ⊢
    simp only [List.count_append, List.count_cons, List.count_nil, List.tail_cons] at hfresh ⊢
    omega
  bound key hkey := by
    change key ∈ (s.freed ++ (numbered s.nextId (keysOf profiles)).tail) ++ [_] ++
      (s.held ++ [_]) at hkey
    change key.id < s.nextId + (keysOf profiles).length
    have hpos : 0 < (keysOf profiles).length := by
      refine List.length_pos_iff.mpr fun hnil => ?_
      rw [hnil] at hbytes
      cases hbytes
    have hold := h.bound key
    have hnew (hmem : key ∈ (numbered s.nextId (keysOf profiles)).tail) :=
      (numbered_bound (List.mem_of_mem_tail hmem)).2
    simp only [List.mem_append, List.mem_singleton] at hkey hold
    grind
  holds _ hkey := List.mem_append_right _ (by simpa using hkey)
  returns _ := rfl
  ready _ := .inr ⟨⟨_, rfl, hbytes⟩, .inr rfl⟩

theorem sound_nil (h : Sound s) (hlive : s.released = false)
    (hkept : ¬ Usable s.profileList ∨ s.objectKey.map Key.bytes = some s.original) :
    Sound (s.handleLocationForward host [] attempts) := by
  obtain ⟨key, hkey⟩ := h.key hlive
  rw [forward_nil host h]
  refine { h with
    clean := by simp [hkey]
    ended := fun hr => absurd (hlive.symm.trans hr) Bool.false_ne_true
    bareForward := nofun
    returns := fun hr => connectLoop_connected host _ _ _ _ hr
    ready := fun _ => ?_ }
  rcases hkept with hnone | hsame
  · left
    refine ⟨?_, hnone⟩
    change (connectLoop host false false s.profileList attempts).2 = false
    rw [connectLoop_unusable host hnone]
  · right
    rw [hkey] at hsame
    exact ⟨⟨key, hkey, hsame.symm⟩, .inl rfl⟩

theorem sound_forward (h : Sound s) (hlive : s.released = false) (hne : profiles ≠ [])
    (hkept : ¬ Usable profiles ∨ ∃ bytes, (keysOf profiles).head? = some bytes ∧
      ((connectLoop host false false profiles attempts).1 = true ∨
        (connectLoop host false false profiles attempts).2 = true ∧
          s.objectKey.map Key.bytes = some bytes)) :
    Sound (s.handleLocationForward host profiles attempts) := by
  obtain ⟨old, hold⟩ := h.key hlive
  cases hloop : (connectLoop host false false profiles attempts).1 with
  | true =>
    have husable : Usable profiles := by
      by_contra hnone
      rw [connectLoop_unusable host hnone] at hloop
      cases hloop
    obtain ⟨bytes, hbytes, -⟩ := hkept.resolve_left (not_not.mpr husable)
    rw [forward_connected host h hne hloop hold (numbered_of_head? hbytes)]
    exact sound_connected h hlive hbytes
  | false =>
    rw [forward_failed host h hne hloop]
    refine sound_failed h hlive _ ?_
    rcases hkept with hnone | ⟨bytes, hbytes, hconnected | ⟨hleft, hsame⟩⟩
    · left
      refine ⟨by rw [connectLoop_unusable host hnone], ?_⟩
      rwa [locations_forwarded hne rfl]
    · rw [hloop] at hconnected
      cases hconnected
    · right
      rw [hold] at hsame
      exact ⟨⟨old, hold, hbytes.trans hsame.symm⟩, hleft⟩

end Forwarding

theorem sound_release {s : State} (h : Sound s) : Sound s.release where
  clean := h.clean
  key hr := absurd hr Bool.noConfusion
  ended _ := ⟨rfl, rfl⟩
  bareList := nofun
  bareForward := nofun
  nodup := by
    change (s.freed ++ s.owned ++ []).Nodup
    rw [h.owned, List.append_nil]
    exact h.nodup
  bound key hkey := by
    change key ∈ s.freed ++ s.owned ++ [] ++ s.held at hkey
    rw [h.owned, List.append_nil] at hkey
    exact h.bound key hkey
  holds := nofun
  returns := nofun
  ready hr := absurd hr Bool.noConfusion

theorem sound_step (host : Host) (s : State) (e : Event) (h : Sound s) (hkept : Kept host s e) :
    Sound (step host s e) := by
  cases hlive : s.released with
  | true =>
    have hsame : step host s e = s := by
      cases e <;> simp [step, hlive]
    rwa [hsame]
  | false =>
    cases e with
    | getConnection reconnect attempts =>
      rw [step_getConnection host h.clean hlive]
      exact (sound_getConnection host h hlive reconnect attempts).1
    | forward profiles attempts =>
      simp only [step, h.clean, hlive, Bool.or_self, Bool.false_eq_true, if_false]
      simp only [Kept, h.clean, hlive, Bool.false_eq_true, false_or] at hkept
      by_cases hnil : profiles = []
      · rw [if_pos hnil] at hkept
        rw [hnil]
        exact sound_nil host h hlive hkept
      · rw [if_neg hnil] at hkept
        exact sound_forward host h hlive hnil hkept
    | release =>
      simp only [step, h.clean, hlive, Bool.or_self, Bool.false_eq_true, if_false]
      exact sound_release h

theorem getConnection_nil (host : Host) {s : State} (hnil : s.forwardLocations = [])
    (reconnect : Bool) (attempts : List (Option Bool)) :
    (s.getConnection host reconnect attempts).objectKey = s.objectKey ∧
      (s.getConnection host reconnect attempts).target = s.target := by
  unfold State.getConnection
  by_cases hconnection : s.connection = true
  · rw [if_pos hconnection]
    exact ⟨rfl, rfl⟩
  · rw [if_neg hconnection, if_pos hnil]
    exact ⟨rfl, rfl⟩

/-- The second visit of a list finds no key to compare with. -/
theorem getConnection_fault (host : Host) {s : State} (hconnection : s.connection = false)
    (hne : s.forwardLocations ≠ []) (hbare : ∀ key ∈ keysOf s.forwardLocations, key = none)
    (husable : Usable s.forwardLocations) :
    (s.getConnection host true [some true]).fault = true := by
  have hstripped : Usable (s.forwardLocations.map (Profile.map fun _ => (none : Option Key))) := by
    rwa [usable_iff, getInfos_map, ← usable_iff]
  rw [State.getConnection, if_neg (by simp [hconnection]), if_neg hne, syncObjkey_bare hbare]
  simp only [connectLoop_connects host hstripped]
  cases s.objectKey <;> rfl

/-- A forward that is not of this kind leaves a reference behind that is not safe. -/
theorem not_keySafe (host : Host) (s : State) (e : Event) (h : Sound s)
    (hkept : ¬ Kept host s e) : ¬ KeySafe host (step host s e) := by
  cases e with
  | getConnection | release => exact absurd trivial hkept
  | forward profiles attempts =>
    simp only [Kept, not_or, Bool.not_eq_true] at hkept
    obtain ⟨-, hlive, hkept⟩ := hkept
    obtain ⟨old, hold⟩ := h.key hlive
    simp only [step, h.clean, hlive, Bool.or_self, Bool.false_eq_true, if_false]
    by_cases hnil : profiles = []
    · subst hnil
      rw [if_pos rfl, not_or, not_not, hold] at hkept
      rw [forward_nil host h]
      intro hsafe
      obtain ⟨key, hkey, htarget⟩ := (hsafe.able hlive true [some true]).2
        (hsafe.again hlive hkept.1)
      rw [step_getConnection host hsafe.clean hlive] at hkey htarget
      have hsame := getConnection_nil host (s := { s with
        forwardLocations := []
        connection := (connectLoop host false false s.profileList attempts).2
        returned := (connectLoop host false false s.profileList attempts).1
        fault := (connectLoop host false false s.profileList attempts).1 && s.objectKey.isNone
        target := some s.original }) rfl true [some true]
      rw [hsame.1, hold] at hkey
      rw [hsame.2] at htarget
      cases hkey
      exact hkept.2 htarget.symm
    · rw [if_neg hnil, not_or, not_not] at hkept
      obtain ⟨husable, hother⟩ := hkept
      cases hloop : (connectLoop host false false profiles attempts).1 with
      | true =>
        cases hkeys : keysOf profiles with
        | nil =>
          intro hsafe
          have hfault := hsafe.clean
          rw [forward_keyless host h hnil hloop hkeys] at hfault
          cases hfault
        | cons bytes keys => exact absurd ⟨bytes, by rw [hkeys]; rfl, .inl hloop⟩ hother
      | false =>
        rw [forward_failed host h hnil hloop]
        intro hsafe
        have hable := hsafe.able hlive true [some true]
        rw [step_getConnection host hsafe.clean hlive] at hable
        cases hleft : (connectLoop host false false profiles attempts).2 with
        | true =>
          rw [hleft] at hable
          obtain ⟨key, hkey, htarget⟩ := hable.2 rfl
          cases hold.symm.trans hkey
          exact hother ⟨old.bytes, htarget, .inr ⟨hleft, by rw [hold]; rfl⟩⟩
        | false =>
          rw [hleft] at hable
          have hvisited : Usable ((allocate s.nextId profiles).map
              (Profile.map fun _ => (none : Option Key))) := by
            rwa [usable_iff, infos_visited, ← usable_iff]
          have hfault := getConnection_fault host (s := { s.visited profiles with
            connection := false }) rfl (by simpa [State.visited] using allocate_ne_nil hnil)
            (bare_strip _) hvisited
          rw [hfault] at hable
          cases hable.1

/-! ### What becomes of the keys -/

theorem freedOnce_iff {s : State} (h : Sound s) :
    FreedOnce s ↔ ∀ key ∈ s.held, key ∈ s.freed ++ s.objectKey.toList := by
  unfold FreedOnce
  rw [h.owned]
  refine forall_congr' fun key => imp_congr_right fun _ => ?_
  constructor
  · intro hcount
    exact List.count_pos_iff.mp (by omega)
  · exact List.count_eq_one_of_mem h.nodup

/-- No key is lost: those that have been there are there, or have been freed. -/
structure Keeps (s s' : State) : Prop where
  held : s'.held = s.held
  keys : ∀ key ∈ s.freed ++ s.objectKey.toList, key ∈ s'.freed ++ s'.objectKey.toList

theorem keeps_getConnection (host : Host) {s : State} (h : Sound s) (hlive : s.released = false)
    (reconnect : Bool) (attempts : List (Option Bool)) :
    Keeps s (s.getConnection host reconnect attempts) := by
  unfold State.getConnection
  by_cases hconnection : s.connection = true
  · rw [if_pos hconnection]
    exact ⟨rfl, fun _ => id⟩
  · rw [if_neg hconnection]
    by_cases hforward : s.forwardLocations = []
    · rw [if_pos hforward]
      exact ⟨rfl, fun _ => id⟩
    · rw [if_neg hforward, syncObjkey_bare h.bareForward]
      have hnone : ¬ Usable (s.forwardLocations.map
          (Profile.map fun _ => (none : Option Key))) := by
        rw [usable_iff, getInfos_map, ← usable_iff]
        rcases h.ready hlive with ⟨-, hnone⟩ | ⟨-, hnil | hc⟩
        · rwa [State.locations, if_neg hforward] at hnone
        · exact absurd hnil hforward
        · exact absurd hc hconnection
      simp only [connectLoop_unusable host hnone, List.append_nil]
      exact ⟨rfl, fun _ => id⟩

theorem keeps_step (host : Host) {s : State} {e : Event} (h : Sound s)
    (hreplaces : ¬ Replaces host s e) : Keeps s (step host s e) := by
  cases hlive : s.released with
  | true =>
    have hsame : step host s e = s := by
      cases e <;> simp [step, hlive]
    rw [hsame]
    exact ⟨rfl, fun _ => id⟩
  | false =>
    cases e with
    | getConnection reconnect attempts =>
      rw [step_getConnection host h.clean hlive]
      exact keeps_getConnection host h hlive reconnect attempts
    | forward profiles attempts =>
      simp only [step, h.clean, hlive, Bool.or_self, Bool.false_eq_true, if_false]
      by_cases hnil : profiles = []
      · subst hnil
        rw [forward_nil host h]
        exact ⟨rfl, fun _ => id⟩
      · have hloop : (connectLoop host false false profiles attempts).1 = false := by
          simpa [Replaces, h.clean, hlive, hnil] using hreplaces
        rw [forward_failed host h hnil hloop]
        refine ⟨rfl, fun key hkey => ?_⟩
        rcases List.mem_append.mp hkey with hfreed | hown
        · exact List.mem_append_left _ (List.mem_append_left _ hfreed)
        · exact List.mem_append_right _ hown
    | release =>
      simp only [step, h.clean, hlive, Bool.or_self, Bool.false_eq_true, if_false]
      refine ⟨rfl, fun key hkey => ?_⟩
      change key ∈ s.freed ++ s.owned ++ []
      rwa [h.owned, List.append_nil]

/-- The key that a forward replaces is lost. -/
theorem not_freedOnce (host : Host) {s : State} {e : Event} (h : Sound s)
    (hkept : Kept host s e) (hreplaces : Replaces host s e) : ¬ FreedOnce (step host s e) := by
  have hnext := sound_step host s e h hkept
  cases e with
  | getConnection | release => exact absurd hreplaces id
  | forward profiles attempts =>
    obtain ⟨-, hlive, hnil, hloop⟩ := hreplaces
    obtain ⟨old, hold⟩ := h.key hlive
    have husable : Usable profiles := by
      by_contra hnone
      rw [connectLoop_unusable host hnone] at hloop
      cases hloop
    simp only [Kept, h.clean, hlive, Bool.false_eq_true, false_or, if_neg hnil] at hkept
    obtain ⟨bytes, hbytes, -⟩ := hkept.resolve_left (not_not.mpr husable)
    simp only [step, h.clean, hlive, Bool.or_self, Bool.false_eq_true, if_false] at hnext ⊢
    rw [forward_connected host h hnil hloop hold (numbered_of_head? hbytes)] at hnext ⊢
    rw [freedOnce_iff hnext]
    intro hall
    have hown : old ∈ s.objectKey.toList := by simp [hold]
    have hlt : old.id < s.nextId :=
      h.bound old (List.mem_append_left _ (List.mem_append_right _ hown))
    have hmem : old ∈ (s.freed ++ (numbered s.nextId (keysOf profiles)).tail) ++
        [⟨s.nextId, bytes⟩] := hall old (List.mem_append_left _ (h.holds old hown))
    rcases List.mem_append.mp hmem with hmem | hnew
    · rcases List.mem_append.mp hmem with hfreed | htail
      · exact (List.nodup_append.mp h.nodup).2.2 old hfreed old hown rfl
      · have hge := (numbered_bound (List.mem_of_mem_tail htail)).1
        omega
    · rw [List.mem_singleton.mp hnew] at hlt
      exact Nat.lt_irrefl _ hlt

theorem freedOnce_step (host : Host) {s : State} {e : Event} (h : Sound s) (hfreed : FreedOnce s)
    (hkept : Kept host s e) (hreplaces : ¬ Replaces host s e) : FreedOnce (step host s e) := by
  obtain ⟨hheld, hkeys⟩ := keeps_step host h hreplaces
  rw [freedOnce_iff (sound_step host s e h hkept), hheld]
  exact fun key hkey => hkeys key ((freedOnce_iff h).mp hfreed key hkey)

theorem sound_initial (bytes : List UInt8) (profiles : List (Profile Unit)) :
    Sound (initial bytes profiles) where
  clean := rfl
  key _ := ⟨_, rfl⟩
  ended := nofun
  bareList := bare_strip profiles
  bareForward := nofun
  nodup := List.nodup_singleton _
  bound key hkey := by
    have hid : key = ⟨0, bytes⟩ := by simpa [initial] using hkey
    rw [hid]
    exact Nat.zero_lt_one
  holds key hkey := by simpa [initial] using hkey
  returns := nofun
  ready _ := .inr ⟨⟨_, rfl, rfl⟩, .inl rfl⟩

theorem freedOnce_initial (bytes : List UInt8) (profiles : List (Profile Unit)) :
    FreedOnce (initial bytes profiles) := by
  rw [freedOnce_iff (sound_initial bytes profiles)]
  simp [initial]

/-- The whole, and what is left of it when the keys that are lost are left aside. -/
theorem location_forward (host : Host) (bytes : List UInt8) (profiles : List (Profile Unit))
    (es : List Event) :
    (Always (step host) (fun s => KeySafe host s ∧ FreedOnce s) (initial bytes profiles) es ↔
      Meets (step host) (fun s e => Kept host s e ∧ ¬ Replaces host s e)
        (initial bytes profiles) es) ∧
    (Always (step host) (KeySafe host) (initial bytes profiles) es ↔
      Meets (step host) (Kept host) (initial bytes profiles) es) := by
  have hinit := sound_initial bytes profiles
  constructor
  · refine always_iff_meets_of (P := fun s => Sound s ∧ FreedOnce s) ?_ ?_ ?_
      ⟨hinit, freedOnce_initial bytes profiles⟩
    · intro s e hs hc
      exact ⟨sound_step host s e hs.1 hc.1, freedOnce_step host hs.1 hs.2 hc.1 hc.2⟩
    · exact fun s hs => ⟨hs.1.keySafe host, hs.2⟩
    · intro s e hs hc hsafe
      by_cases hkept : Kept host s e
      · have hreplaces : Replaces host s e := by
          by_contra hno
          exact hc ⟨hkept, hno⟩
        exact not_freedOnce host hs.1 hkept hreplaces hsafe.2
      · exact not_keySafe host s e hs.1 hkept hsafe.1
  · exact always_iff_meets_of (sound_step host) (fun s => Sound.keySafe host)
      (not_keySafe host) hinit

/-- The reference forwarded to is at a host that does not answer at first. -/
def retried : List Event :=
  [.forward [.internetIop "there" [2]] [none], .getConnection false [some true]]

theorem null_key_compared :
    ¬ Always (step ⟨false, true, "here"⟩) (fun s => KeySafe ⟨false, true, "here"⟩ s ∧ FreedOnce s)
      (initial [1] [.internetIop "here" ()]) retried ∧
    (run (step ⟨false, true, "here"⟩) (initial [1] [.internetIop "here" ()]) retried).fault = true := by
  have hfault : (run (step ⟨false, true, "here"⟩) (initial [1] [.internetIop "here" ()])
      retried).fault = true := by decide
  refine ⟨fun h => ?_, hfault⟩
  have hclean := h.last.1.clean
  rw [hfault] at hclean
  cases hclean

end ORBit2.Forward
