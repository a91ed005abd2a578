import ORBit2.Base.Words
import ORBit2.Base.Runs

/-! The key of an object in a request: the table of adaptors of an ORB, what a POA puts into
the key, and the way from the bytes of a request back to the POA and the object. -/

set_option autoImplicit false

namespace ORBit2

open Words

/-- `ORBIT_ADAPTOR_KEY_LEN` -/
def adaptorKeyLen : Nat := 128 / 8

/-- `ORBIT_ADAPTOR_PREFIX_LEN` -/
def adaptorPrefixLen : Nat := 4 + adaptorKeyLen

/-- `ORBIT_OBJECT_ID_LEN` -/
def objectIdLen : Nat := 4

abbrev Octets := List UInt8

/-- A POA, as the table of adaptors knows it. -/
structure PoaEntry where
  /-- `adaptor_key` -/
  adaptorKey : Octets
  systemId : Bool
  /-- `oid_to_obj_map` hashes with `ORBit_ObjectId_sysid_hash` -/
  sysidHash : Bool
  /-- the ids of the objects in `oid_to_obj_map` -/
  objects : List Octets
  /-- the slot of the table is NULL -/
  destroyed : Bool
  deriving Repr

/-- An ORB, and the byte order of its host. -/
structure Orb where
  endian : Endian
  adaptors : List PoaEntry
  deriving Repr

inductive OrbEvent where
  /-- `ORBit_POA_new`, with the bytes `ORBit_genuid_buffer` leaves -/
  | createPOA (systemId : Bool) (cookie : Fin adaptorKeyLen → UInt8)
  /-- `ORBit_POA_new_from`: the map is made for system ids -/
  | newFrom (systemId : Bool) (cookie : Fin adaptorKeyLen → UInt8)
  /-- the end of `ORBit_POA_destroy_T_R` -/
  | destroyPOA (i : Nat)
  /-- `ORBit_POA_create_object_T` -/
  | createObject (i : Nat) (oid : Octets)
  /-- `ORBit_POAObject_release_cb` -/
  | releaseObject (i : Nat) (oid : Octets)

/-- `ORBit_adaptor_setup`. The index of a slot is an `int`, and so is the new length. -/
def adaptorSetup (orb : Orb) (systemId sysidHash : Bool) (cookie : Fin adaptorKeyLen → UInt8) :
    Orb :=
  if orb.adaptors.length + 1 < 2^31 then
    { orb with adaptors := orb.adaptors ++
        [⟨orb.endian.split 4 orb.adaptors.length ++ List.ofFn cookie, systemId, sysidHash, [],
          false⟩] }
  else orb

def PoaEntry.createObject (oid : Octets) (p : PoaEntry) : PoaEntry :=
  if oid ∉ p.objects ∧ (p.systemId → oid.length = 4 + objectIdLen) then
    { p with objects := oid :: p.objects }
  else p

def PoaEntry.step : OrbEvent → PoaEntry → PoaEntry
  | .createObject _ oid, p => p.createObject oid
  | .releaseObject _ oid, p => { p with objects := p.objects.filter (· ≠ oid) }
  | .destroyPOA _, p => { p with destroyed := true }
  | _, p => p

def Orb.step (orb : Orb) (e : OrbEvent) : Orb :=
  match e with
  | .createPOA systemId cookie => adaptorSetup orb systemId systemId cookie
  | .newFrom systemId cookie => adaptorSetup orb systemId true cookie
  | .destroyPOA i | .createObject i _ | .releaseObject i _ =>
      { orb with adaptors := orb.adaptors.modify i (PoaEntry.step e) }

/-- `ORBit_POAObject_object_to_objkey` -/
def objectToObjkey (p : PoaEntry) (oid : Octets) : Octets := p.adaptorKey ++ oid

/-- `n` bytes of a buffer, if it has as many behind `off`. -/
def readOctets (buf : Octets) (off n : Nat) : Option Octets :=
  if off + n ≤ buf.length then some ((buf.drop off).take n) else none

/-- A word read as a `gint32`. -/
def gint32 (n : Nat) : Int := if n < 2^31 then n else n - 2^32

/-- `ORBit_adaptor_find`: the index of the adaptor. Outside, `none` is a read past the end of
the key or of the table. -/
def adaptorFind (orb : Orb) (objkey : Octets) : Option (Option Nat) :=
  if objkey.length < adaptorPrefixLen then some none
  else do
    let word ← readOctets objkey 0 4
    let adaptorId := gint32 (orb.endian.join word)
    if adaptorId < 0 ∨ (orb.adaptors.length : Int) ≤ adaptorId then some none
    else do
      let p ← orb.adaptors[adaptorId.toNat]?
      if p.destroyed then some none
      else do
        let a ← readOctets objkey 0 adaptorPrefixLen
        let b ← readOctets p.adaptorKey 0 adaptorPrefixLen
        some (if a ≠ b then none else some adaptorId.toNat)

/-- `ORBit_POA_object_id_lookup_T`. The hash of a system id is read from its first four bytes,
however many there are. -/
def PoaEntry.objectIdLookup (p : PoaEntry) (oid : Octets) : Option (Option Octets) := do
  let _ ← if p.sysidHash then readOctets oid 0 4 else some []
  some (p.objects.find? (· = oid))

/-- `ORBit_POA_object_key_lookup_T` -/
def PoaEntry.objectKeyLookup (p : PoaEntry) (objkey : Octets) : Option (Option Octets) :=
  p.objectIdLookup (objkey.drop adaptorPrefixLen)

/-- The way of `ORBit_handle_request` to the POA and the object id. -/
def Orb.route (orb : Orb) (objkey : Octets) : Option (Option (Nat × Octets)) := do
  match ← adaptorFind orb objkey with
  | none => some none
  | some i =>
      let p ← orb.adaptors[i]?
      some ((← p.objectKeyLookup objkey).map fun oid => (i, oid))

/-- The POA at an index lives, and an object with that id is in its map. -/
def Orb.Live (orb : Orb) (i : Nat) (oid : Octets) (objkey : Octets) : Prop :=
  ∃ p, orb.adaptors[i]? = some p ∧ p.destroyed = false ∧ oid ∈ p.objects ∧
    objkey = objectToObjkey p oid

/-- Nothing is read past an end; the request goes to the object whose key it has, and to no
other. -/
structure Orb.Routes (orb : Orb) (objkey : Octets) : Prop where
  inBounds : orb.route objkey ≠ none
  delivered : ∀ i oid, orb.Live i oid objkey → orb.route objkey = some (some (i, oid))
  sound : ∀ i oid, orb.route objkey = some (some (i, oid)) → orb.Live i oid objkey

/-- The key is that of a living POA that hashes system ids, cut off in the object id. -/
def Orb.CutOff (orb : Orb) (objkey : Octets) : Prop :=
  ∃ p ∈ orb.adaptors, p.destroyed = false ∧ p.sysidHash = true ∧ p.adaptorKey <+: objkey ∧
    objkey.length < adaptorPrefixLen + 4

def Orb.init (endian : Endian) : Orb := ⟨endian, []⟩

/-- Each adaptor key names the slot it is in. -/
structure Orb.Keyed (orb : Orb) : Prop where
  small : orb.adaptors.length < 2^31
  length : ∀ p ∈ orb.adaptors, p.adaptorKey.length = adaptorPrefixLen
  index : ∀ i p, orb.adaptors[i]? = some p → p.adaptorKey.take 4 = orb.endian.split 4 i

theorem PoaEntry.step_adaptorKey (e : OrbEvent) (p : PoaEntry) :
    (p.step e).adaptorKey = p.adaptorKey := by
  cases e with
  | createObject i oid =>
    unfold PoaEntry.step PoaEntry.createObject
    simp only
    split <;> rfl
  | _ => rfl

/-- An event at one of the POAs leaves the keys as they are. -/
theorem Orb.Keyed.modify {orb : Orb} (h : orb.Keyed) (i : Nat) (e : OrbEvent) :
    Orb.Keyed { orb with adaptors := orb.adaptors.modify i (PoaEntry.step e) } := by
  have hget : ∀ (j : Nat) (p : PoaEntry), (orb.adaptors.modify i (PoaEntry.step e))[j]? = some p →
      ∃ q : PoaEntry, orb.adaptors[j]? = some q ∧ p.adaptorKey = q.adaptorKey := by
    intro j p hp
    rw [List.getElem?_modify, Option.map_eq_map, Option.map_eq_some_iff] at hp
    obtain ⟨q, hq, rfl⟩ := hp
    refine ⟨q, hq, ?_⟩
    split
    · exact PoaEntry.step_adaptorKey e q
    · rfl
  constructor
  · simpa using h.small
  · intro p hp
    obtain ⟨j, hj⟩ := List.mem_iff_getElem?.mp hp
    obtain ⟨q, hq, hk⟩ := hget j p hj
    rw [hk]
    exact h.length q (List.mem_of_getElem? hq)
  · intro j p hp
    obtain ⟨q, hq, hk⟩ := hget j p hp
    rw [hk]
    exact h.index j q hq

theorem Orb.Keyed.setup {orb : Orb} (h : orb.Keyed) (systemId sysidHash : Bool)
    (cookie : Fin adaptorKeyLen → UInt8) : (adaptorSetup orb systemId sysidHash cookie).Keyed := by
  unfold adaptorSetup
  split
  · rename_i hlt
    constructor
    · simpa using hlt
    · intro p hp
      rcases List.mem_append.mp hp with hp | hp
      · exact h.length p hp
      · rw [List.mem_singleton.mp hp]
        simp [adaptorPrefixLen]
    · intro i p hp
      rcases Nat.lt_trichotomy i orb.adaptors.length with hi | rfl | hi
      · rw [List.getElem?_append_left hi] at hp
        exact h.index i p hp
      · simp only [List.getElem?_concat_length, Option.some.injEq] at hp
        subst hp
        simp
      · rw [List.getElem?_eq_none (by simp; omega)] at hp
        cases hp
  · exact h

theorem Orb.Keyed.step {orb : Orb} (h : orb.Keyed) (e : OrbEvent) : (orb.step e).Keyed := by
  cases e with
  | createPOA systemId cookie => exact h.setup systemId systemId cookie
  | newFrom systemId cookie => exact h.setup systemId true cookie
  | destroyPOA i => exact h.modify i _
  | createObject i oid => exact h.modify i _
  | releaseObject i oid => exact h.modify i _

theorem Orb.keyed_run (endian : Endian) (es : List OrbEvent) :
    (Runs.run Orb.step (Orb.init endian) es).Keyed := by
  have hinit : (Orb.init endian).Keyed := by constructor <;> simp [Orb.init]
  exact Runs.run_invariant (fun _ e h => h.step e) es hinit

section
variable {orb : Orb} {objkey : Octets} {i : Nat} {p : PoaEntry}

theorem readOctets_zero {n : Nat} (h : n ≤ objkey.length) :
    readOctets objkey 0 n = some (objkey.take n) := by
  simp [readOctets, h]

/-- A key with an adaptor's prefix leads to that adaptor. -/
theorem adaptorFind_of_isPrefix (h : orb.Keyed) (hp : orb.adaptors[i]? = some p)
    (hd : p.destroyed = false) (hk : p.adaptorKey <+: objkey) :
    adaptorFind orb objkey = some (some i) := by
  have hlen := h.length p (List.mem_of_getElem? hp)
  have hle : adaptorPrefixLen ≤ objkey.length := by rw [← hlen]; exact hk.length_le
  have h4 : 4 ≤ objkey.length := Nat.le_trans (by decide) hle
  have hi : i < orb.adaptors.length := (List.getElem?_eq_some_iff.mp hp).1
  have htake : objkey.take adaptorPrefixLen = p.adaptorKey := by
    rw [← hlen]
    exact List.prefix_iff_eq_take.mp hk |>.symm
  have hword : objkey.take 4 = orb.endian.split 4 i := by
    rw [← h.index i p hp, ← htake, List.take_take]
    rfl
  have hid : gint32 (orb.endian.join (objkey.take 4)) = i := by
    have hs := h.small
    rw [hword, Endian.join_split _ _ _ (by omega), gint32, if_pos (by omega)]
  have hself : readOctets p.adaptorKey 0 adaptorPrefixLen = some p.adaptorKey := by
    rw [readOctets_zero hlen.ge, ← hlen, List.take_length]
  have hrange : ¬ ((i : Int) < 0 ∨ (orb.adaptors.length : Int) ≤ i) := by omega
  unfold adaptorFind
  rw [if_neg (by omega), readOctets_zero h4, readOctets_zero hle, htake]
  simp only [Option.bind_eq_bind, Option.bind_some, hid, if_neg hrange, Int.toNat_natCast, hp, hd,
    hself]
  simp

/-- No other key leads to an adaptor, and none past the end of the table. -/
theorem adaptorFind_cases (h : orb.Keyed) (objkey : Octets) :
    adaptorFind orb objkey = some none ∨
    ∃ (i : Nat) (p : PoaEntry), orb.adaptors[i]? = some p ∧ p.destroyed = false ∧
      p.adaptorKey <+: objkey := by
  by_cases hle : adaptorPrefixLen ≤ objkey.length
  · have h4 : 4 ≤ objkey.length := Nat.le_trans (by decide) hle
    unfold adaptorFind
    rw [if_neg (by omega), readOctets_zero h4, readOctets_zero hle]
    simp only [Option.bind_eq_bind, Option.bind_some]
    split
    · exact .inl rfl
    · rename_i hr
      simp only [not_or, not_lt, not_le] at hr
      obtain ⟨k, hk⟩ := Int.eq_ofNat_of_zero_le hr.1
      rw [hk] at hr ⊢
      have hlt : k < orb.adaptors.length := by omega
      simp only [Int.toNat_natCast, List.getElem?_eq_getElem hlt, Option.bind_some]
      have hmem := List.getElem_mem hlt
      have hlen := h.length _ hmem
      rw [readOctets_zero hlen.ge]
      split
      · exact .inl rfl
      · rename_i hd
        simp only [Option.bind_some]
        by_cases he : objkey.take adaptorPrefixLen = orb.adaptors[k].adaptorKey
        · refine .inr ⟨k, _, List.getElem?_eq_getElem hlt, by simpa using hd, ?_⟩
          rw [← he]
          exact List.take_prefix _ _
        · left
          rw [← hlen, List.take_length]
          rw [← hlen] at he
          simp [he]
  · exact .inl (if_pos (by omega))

theorem route_of_prefix (h : orb.Keyed) (hp : orb.adaptors[i]? = some p)
    (hd : p.destroyed = false) (hk : p.adaptorKey <+: objkey) :
    orb.route objkey = (p.objectKeyLookup objkey).map (·.map (i, ·)) := by
  unfold Orb.route
  simp only [adaptorFind_of_isPrefix h hp hd hk, hp, Option.bind_eq_bind, Option.bind_some]
  cases p.objectKeyLookup objkey <;> rfl

/-- The id is looked up, unless its hash cannot be read. -/
theorem PoaEntry.objectIdLookup_eq (p : PoaEntry) (oid : Octets) :
    p.objectIdLookup oid =
      if p.sysidHash = true ∧ oid.length < 4 then none
      else some (if oid ∈ p.objects then some oid else none) := by
  have hfind : p.objects.find? (· = oid) = if oid ∈ p.objects then some oid else none := by
    induction p.objects with
    | nil => rfl
    | cons a as ih =>
      by_cases ha : a = oid
      · simp [ha]
      · simp [ha, Ne.symm ha, ih]
  unfold PoaEntry.objectIdLookup
  by_cases hs : p.sysidHash = true
  · by_cases hl : oid.length < 4
    · simp [hs, hl, readOctets, Nat.not_le.mpr hl]
    · simp [hs, hl, readOctets, Nat.not_lt.mp hl, hfind]
  · simp [hs, hfind]

/-- A key of this orb splits in one way. -/
theorem Orb.Keyed.live_iff (h : orb.Keyed) (hp : orb.adaptors[i]? = some p)
    (hk : p.adaptorKey <+: objkey) {j : Nat} {oid : Octets} :
    orb.Live j oid objkey ↔
      j = i ∧ p.destroyed = false ∧ oid ∈ p.objects ∧ oid = objkey.drop adaptorPrefixLen := by
  have hlen := h.length p (List.mem_of_getElem? hp)
  constructor
  · rintro ⟨q, hq, hd, ho, rfl⟩
    have hqlen := h.length q (List.mem_of_getElem? hq)
    have hqp : p.adaptorKey = q.adaptorKey := by
      obtain ⟨t, ht⟩ := hk
      exact (List.append_inj ht (hlen.trans hqlen.symm)).1
    have hji : j = i := by
      have hi := (List.getElem?_eq_some_iff.mp hp).1
      have hj := (List.getElem?_eq_some_iff.mp hq).1
      have hs := h.small
      have hw := (h.index j q hq).symm.trans ((congrArg (List.take 4) hqp.symm).trans
        (h.index i p hp))
      have he := congrArg orb.endian.join hw
      rwa [Endian.join_split _ _ _ (by omega), Endian.join_split _ _ _ (by omega)] at he
    subst hji
    cases hp.symm.trans hq
    refine ⟨rfl, hd, ho, ?_⟩
    rw [objectToObjkey, ← hlen, List.drop_left]
  · rintro ⟨rfl, hd, ho, rfl⟩
    refine ⟨p, hp, hd, ho, ?_⟩
    obtain ⟨t, rfl⟩ := hk
    rw [objectToObjkey, ← hlen, List.drop_left]

end

end ORBit2
