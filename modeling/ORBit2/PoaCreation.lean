import ORBit2.PoaState

/-! How POAs come into being: their policies, which are set, checked, copied and overridden, and the
hash function of their object maps. -/

set_option autoImplicit false

namespace ORBit2.PoaCreation

open PortableServer (Policies)

/-- `struct CORBA_Policy_type` -/
structure Policy where
  policyType : UInt32
  value : UInt32
  deriving DecidableEq, Repr

def threadPolicyId : UInt32 := 16
def lifespanPolicyId : UInt32 := 17
def idUniquenessPolicyId : UInt32 := 18
def idAssignmentPolicyId : UInt32 := 19
def implicitActivationPolicyId : UInt32 := 20
def servantRetentionPolicyId : UInt32 := 21
def requestProcessingPolicyId : UInt32 := 22

def singleThreadModel : UInt32 := 1
def transient : UInt32 := 0
def uniqueId : UInt32 := 0
def userId : UInt32 := 0
def systemId : UInt32 := 1
def implicitActivationValue : UInt32 := 0
def noImplicitActivationValue : UInt32 := 1
def retain : UInt32 := 0
def nonRetain : UInt32 := 1
def useActiveObjectMapOnly : UInt32 := 0
def useDefaultServant : UInt32 := 1

/-- The `p_...` fields of a POA. A value is whatever the policy holds. -/
structure PolicyValues where
  thread : UInt32
  lifespan : UInt32
  idUniqueness : UInt32
  idAssignment : UInt32
  servantRetention : UInt32
  requestProcessing : UInt32
  implicitActivation : UInt32
  deriving DecidableEq, Repr

/-- `ORBit_POA_set_policy`; a type that is not known is passed over with a warning. -/
def setPolicy (poa : PolicyValues) (policy : Policy) : PolicyValues :=
  if policy.policyType = threadPolicyId then { poa with thread := policy.value }
  else if policy.policyType = lifespanPolicyId then { poa with lifespan := policy.value }
  else if policy.policyType = idUniquenessPolicyId then { poa with idUniqueness := policy.value }
  else if policy.policyType = idAssignmentPolicyId then { poa with idAssignment := policy.value }
  else if policy.policyType = implicitActivationPolicyId then
    { poa with implicitActivation := policy.value }
  else if policy.policyType = servantRetentionPolicyId then
    { poa with servantRetention := policy.value }
  else if policy.policyType = requestProcessingPolicyId then
    { poa with requestProcessing := policy.value }
  else poa

/-- What `ORBit_POA_set_policies` starts with. -/
def defaultPolicies : PolicyValues where
  thread := singleThreadModel
  lifespan := transient
  idUniqueness := uniqueId
  idAssignment := systemId
  servantRetention := retain
  requestProcessing := useActiveObjectMapOnly
  implicitActivation := noImplicitActivationValue

/-- The policies of a list, which may be NULL, over those there are. -/
def overridden (values : PolicyValues) (policies : Option (List Policy)) : PolicyValues :=
  (policies.getD []).foldl setPolicy values

def PolicyValues.Accepted (values : PolicyValues) : Prop :=
  ¬ (values.servantRetention = nonRetain ∧ values.requestProcessing = useActiveObjectMapOnly) ∧
  ¬ (values.requestProcessing = useDefaultServant ∧ values.idUniqueness = uniqueId) ∧
  ¬ (values.implicitActivation = implicitActivationValue ∧
    (values.idAssignment = userId ∨ values.servantRetention = nonRetain))

instance (values : PolicyValues) : Decidable values.Accepted := by
  unfold PolicyValues.Accepted; infer_instance

/-- `ORBit_POA_set_policies`, or the exception InvalidPolicy -/
def setPolicies (policies : Option (List Policy)) : Option PolicyValues :=
  let poa := overridden defaultPolicies policies
  if poa.servantRetention = nonRetain ∧ poa.requestProcessing = useActiveObjectMapOnly then none
  else if poa.requestProcessing = useDefaultServant ∧ poa.idUniqueness = uniqueId then none
  else if poa.implicitActivation = implicitActivationValue ∧
      (poa.idAssignment = userId ∨ poa.servantRetention = nonRetain) then none
  else some poa

/-- What the POA looks at of its policies. -/
def PolicyValues.policies (values : PolicyValues) : Policies where
  singleThread := values.thread == singleThreadModel
  uniqueId := values.idUniqueness == uniqueId
  systemId := values.idAssignment != userId
  implicitActivation := values.implicitActivation == implicitActivationValue
  retain := values.servantRetention != nonRetain
  processing :=
    if values.requestProcessing = useActiveObjectMapOnly then .activeObjectMapOnly
    else if values.requestProcessing = useDefaultServant then .defaultServant
    else .servantManager

theorem setPolicies_eq (policies : Option (List Policy)) :
    setPolicies policies =
      if (overridden defaultPolicies policies).Accepted then some (overridden defaultPolicies policies)
      else none := by
  unfold setPolicies
  dsimp only
  generalize overridden defaultPolicies policies = poa
  by_cases hactive : poa.servantRetention = nonRetain ∧ poa.requestProcessing = useActiveObjectMapOnly
  · rw [if_pos hactive, if_neg fun h => h.1 hactive]
  rw [if_neg hactive]
  by_cases hdefault : poa.requestProcessing = useDefaultServant ∧ poa.idUniqueness = uniqueId
  · rw [if_pos hdefault, if_neg fun h => h.2.1 hdefault]
  rw [if_neg hdefault]
  by_cases himplicit : poa.implicitActivation = implicitActivationValue ∧
      (poa.idAssignment = userId ∨ poa.servantRetention = nonRetain)
  · rw [if_pos himplicit, if_neg fun h => h.2.2 himplicit]
  rw [if_neg himplicit, if_pos ⟨hactive, hdefault, himplicit⟩]

/-- The constraints on the values are those on the policies that the running POA looks at. -/
theorem PolicyValues.accepted_iff (values : PolicyValues) :
    values.Accepted ↔ values.policies.Accepted := by
  have hactive : values.policies.processing = .activeObjectMapOnly ↔
      values.requestProcessing = useActiveObjectMapOnly := by
    unfold PolicyValues.policies
    dsimp only
    split
    · simp [*]
    · rename_i h
      split <;> simp [h]
  have hdefault : values.policies.processing = .defaultServant ↔
      values.requestProcessing = useDefaultServant := by
    unfold PolicyValues.policies
    dsimp only
    split
    · rename_i h
      simp only [h, reduceCtorEq, false_iff]
      decide
    · split <;> simp [*]
  unfold PolicyValues.Accepted Policies.Accepted
  rw [hactive, hdefault]
  simp [PolicyValues.policies]

/-- The hash functions of `oid_to_obj_map` -/
inductive HashFunction where
  | sysid
  | octets
  deriving DecidableEq, Repr

/-- `ORBit_ObjectId_sysid_hash`, which reads a word wherever the id ends. -/
def sysidHash (host : Words.Endian) (objectId : Octets) : Option Nat :=
  if 4 ≤ objectId.length then some (host.join (objectId.take 4)) else none

/-- One byte of `ORBit_sequence_CORBA_octet_hash`, as a signed character. -/
def octetHashStep (h : UInt32) (p : UInt8) : UInt32 :=
  let h := (h <<< 4) + p.toInt8.toInt32.toUInt32
  let g := h &&& 0xf0000000
  if g ≠ 0 then (h ^^^ (g >>> 24)) ^^^ g else h

/-- `ORBit_sequence_CORBA_octet_hash` -/
def octetHash (objectId : Octets) : UInt32 := objectId.foldl octetHashStep 0

/-- The hash of an id, if it is made of its bytes. -/
def HashFunction.hash (host : Words.Endian) (objectId : Octets) : HashFunction → Option Nat
  | .sysid => sysidHash host objectId
  | .octets => some (octetHash objectId).toNat

/-- What `ORBit_POA_new` makes the map with. -/
def hashFunctionFor (values : PolicyValues) : HashFunction :=
  if values.idAssignment = systemId then .sysid else .octets

structure Adaptor where
  name : List UInt8
  policies : PolicyValues
  /-- of `oid_to_obj_map` -/
  hashFunction : HashFunction
  poaManager : Nat
  parentPoa : Option Nat
  childPoas : List (List UInt8 × Nat)
  deriving DecidableEq, Repr

/-- What POAs are registered with. -/
structure Registry where
  /-- `orb->adaptors` -/
  adaptors : List Adaptor
  /-- the `poa_collection` of every POAManager -/
  managers : List (List Nat)
  deriving DecidableEq, Repr

/-- `ORBit_POA_new`: a POA that is refused is freed before it is registered. -/
def Registry.poaNew (s : Registry) (adaptorName : List UInt8) (manager : Option Nat)
    (policies : Option (List Policy)) : Registry × Option Nat :=
  match setPolicies policies with
  | none => (s, none)
  | some values =>
      let managers := if manager = none then s.managers ++ [[]] else s.managers
      let manager := manager.getD s.managers.length
      let poa := s.adaptors.length
      ({ adaptors := s.adaptors ++ [⟨adaptorName, values, hashFunctionFor values, manager, none, []⟩],
         managers := managers.modify manager (· ++ [poa]) }, some poa)

/-- `ORBit_POA_add_child` -/
def Registry.addChild (s : Registry) (poa : Nat) (child : Option Nat) (name : List UInt8) : Registry :=
  match child with
  | none => s
  | some child =>
      { s with adaptors :=
          (s.adaptors.modify child fun c => { c with parentPoa := some poa }).modify poa fun p =>
            { p with childPoas := (name, child) :: p.childPoas.filter (·.1 ≠ name) } }

/-- What a creation returns or raises. -/
inductive Created where
  | poa (p : Nat)
  | invObjref
  | badParam
  | adapterAlreadyExists
  | invalidPolicy
  | nil
  deriving DecidableEq, Repr

/-- "RootPOA" -/
def rootName : List UInt8 := [82, 111, 111, 116, 80, 79, 65]

/-- `ORBit_POA_setup_root` -/
def Registry.setupRoot (s : Registry) : Registry × Created :=
  match s.poaNew rootName none (some [⟨implicitActivationPolicyId, implicitActivationValue⟩]) with
  | (s, some poa) => (s, .poa poa)
  | (s, none) => (s, .invalidPolicy)

/-- The names of adaptors are compared octet by octet. -/
local instance adaptorNames_lawful : LawfulBEq (List UInt8) := inferInstance

/-- `PortableServer_POA_create_POA` -/
def Registry.createPOA (s : Registry) (poa : Option Nat) (adaptorName : Option (List UInt8))
    (manager : Option Nat) (policies : Option (List Policy)) : Registry × Created :=
  match poa.bind fun p => s.adaptors[p]?.map (p, ·), adaptorName, policies with
  | none, _, _ => (s, .invObjref)
  | some _, none, _ => (s, .badParam)
  | some _, some _, none => (s, .badParam)
  | some (p, parent), some name, some policies =>
      if name ∈ parent.childPoas.map (·.1) then (s, .adapterAlreadyExists)
      else
        let (s, retval) := s.poaNew name manager (some policies)
        (s.addChild p retval name, retval.elim .invalidPolicy .poa)

/-- `ORBit_POA_new_from`: the policies are those of the parent, with changes, whatever the new POA
was made with. -/
def Registry.newFrom (s : Registry) (parent : Option Nat) (adaptorName : List UInt8)
    (optPolicies : Option (List Policy)) : Registry × Created :=
  match parent.bind fun p => s.adaptors[p]?.map (p, ·) with
  | none => (s, .nil)
  | some (p, parent) =>
      match s.poaNew adaptorName (some parent.poaManager) none with
      | (s, none) => (s, .nil)
      | (s, some poa) =>
          let s := { s with adaptors := s.adaptors.modify poa fun a =>
            { a with policies := overridden parent.policies optPolicies } }
          (s.addChild p (some poa) adaptorName, .poa poa)

inductive Creation where
  | setupRoot
  | createPOA (poa : Option Nat) (adaptorName : Option (List UInt8)) (manager : Option Nat)
      (policies : Option (List Policy))
  | newFrom (parent : Option Nat) (adaptorName : List UInt8) (optPolicies : Option (List Policy))
  deriving DecidableEq, Repr

def Registry.create (s : Registry) : Creation → Registry × Created
  | .setupRoot => s.setupRoot
  | .createPOA poa adaptorName manager policies => s.createPOA poa adaptorName manager policies
  | .newFrom parent adaptorName optPolicies => s.newFrom parent adaptorName optPolicies

def Registry.step (s : Registry) (c : Creation) : Registry := (s.create c).1

def Registry.init : Registry := ⟨[], []⟩

/-- What the rest of the POA relies on. -/
structure Consistent (values : PolicyValues) (hashFunction : HashFunction) : Prop where
  accepted : values.Accepted
  hashFunction_eq : hashFunction = hashFunctionFor values
  /-- an id that the user may have made is hashed within its bytes -/
  within : values.idAssignment = userId → ∀ (host : Words.Endian) (objectId : Octets),
    (hashFunction.hash host objectId).isSome

def Registry.Consistent (s : Registry) : Prop :=
  ∀ a ∈ s.adaptors, PoaCreation.Consistent a.policies a.hashFunction

/-- The policies that `ORBit_POA_new_from` ends with are good together, and are those of a POA that
makes its own ids. -/
def Registry.Careful (s : Registry) : Creation → Prop
  | .newFrom parent _ optPolicies => ∀ p ∈ parent, ∀ a ∈ s.adaptors[p]?,
      (overridden a.policies optPolicies).Accepted ∧
      (overridden a.policies optPolicies).idAssignment = systemId
  | _ => True

instance (s : Registry) (c : Creation) : Decidable (s.Careful c) := by
  unfold Registry.Careful; cases c <;> infer_instance

section
variable {s : Registry}

theorem consistent_hashFunctionFor {values : PolicyValues} (h : values.Accepted) :
    Consistent values (hashFunctionFor values) where
  accepted := h
  hashFunction_eq := rfl
  within hu host objectId := by
    unfold hashFunctionFor
    rw [if_neg (by rw [hu]; decide)]
    rfl

theorem consistent_sysid_iff {values : PolicyValues} :
    Consistent values .sysid ↔ values.Accepted ∧ values.idAssignment = systemId := by
  constructor
  · intro h
    refine ⟨h.accepted, ?_⟩
    by_contra hne
    have hfun := h.hashFunction_eq
    unfold hashFunctionFor at hfun
    rw [if_neg hne] at hfun
    cases hfun
  · rintro ⟨ha, hs⟩
    have hfun : hashFunctionFor values = .sysid := if_pos hs
    rw [← hfun]
    exact consistent_hashFunctionFor ha

/-- The policies of a POA and its hash function. -/
def Adaptor.made (a : Adaptor) : PolicyValues × HashFunction := (a.policies, a.hashFunction)

def Registry.made (s : Registry) : List (PolicyValues × HashFunction) := s.adaptors.map Adaptor.made

theorem Registry.consistent_iff :
    s.Consistent ↔ ∀ made ∈ s.made, PoaCreation.Consistent made.1 made.2 := by
  unfold Registry.Consistent Registry.made
  simp [Adaptor.made]

theorem map_modify_eq {α β : Type} (f : α → β) (g : α → α) (h : ∀ a, f (g a) = f a) (l : List α)
    (i : Nat) : (l.modify i g).map f = l.map f := by
  refine List.ext_getElem? fun j => ?_
  rw [List.getElem?_map, List.getElem?_map, List.getElem?_modify]
  split
  · cases l[j]? with
    | none => rfl
    | some a => exact congrArg some (h a)
  · cases l[j]? <;> rfl

theorem modify_snoc {α : Type} (g : α → α) (l : List α) (a : α) :
    (l ++ [a]).modify l.length g = l ++ [g a] := by
  induction l with
  | nil => rfl
  | cons b l ih => simp [ih]

@[simp] theorem Registry.made_addChild (poa : Nat) (child : Option Nat) (name : List UInt8) :
    (s.addChild poa child name).made = s.made := by
  cases child with
  | none => rfl
  | some child =>
    unfold Registry.addChild Registry.made
    dsimp only
    refine (map_modify_eq _ _ ?_ _ _).trans (map_modify_eq _ _ ?_ _ _)
    · exact fun _ => rfl
    · exact fun _ => rfl

theorem accepted_of_setPolicies {policies : Option (List Policy)} {values : PolicyValues}
    (h : setPolicies policies = some values) : values.Accepted := by
  rw [setPolicies_eq] at h
  split at h
  · rename_i ha
    cases h
    exact ha
  · cases h

theorem Registry.poaNew_refused {name : List UInt8} {manager : Option Nat}
    {policies : Option (List Policy)} (h : setPolicies policies = none) :
    s.poaNew name manager policies = (s, none) := by
  unfold Registry.poaNew
  rw [h]

/-- The POA that is made stands behind the others. -/
theorem Registry.poaNew_made (s : Registry) (name : List UInt8) (manager : Option Nat)
    {policies : Option (List Policy)} {values : PolicyValues} (h : setPolicies policies = some values) :
    ∃ managers m, s.poaNew name manager policies =
      (⟨s.adaptors ++ [⟨name, values, hashFunctionFor values, m, none, []⟩], managers⟩,
        some s.adaptors.length) := by
  unfold Registry.poaNew
  rw [h]
  exact ⟨_, _, rfl⟩

/-- One more POA is as good as its own policies. -/
theorem Registry.consistent_snoc {s' : Registry} (hs : s.Consistent) (made : PolicyValues × HashFunction)
    (h : s'.made = s.made ++ [made]) :
    s'.Consistent ↔ PoaCreation.Consistent made.1 made.2 := by
  rw [Registry.consistent_iff] at hs ⊢
  rw [h]
  constructor
  · intro hall
    exact hall made (List.mem_append_right _ List.mem_cons_self)
  · intro hmade made' hmem
    rcases List.mem_append.mp hmem with hmem | hmem
    · exact hs made' hmem
    · rw [List.mem_singleton.mp hmem]
      exact hmade

/-- `ORBit_POA_new` checks what it sets. -/
theorem Registry.Consistent.poaNew (hs : s.Consistent) (name : List UInt8) (manager : Option Nat)
    (policies : Option (List Policy)) : (s.poaNew name manager policies).1.Consistent := by
  cases h : setPolicies policies with
  | none =>
    rw [Registry.poaNew_refused h]
    exact hs
  | some values =>
    obtain ⟨managers, m, hnew⟩ := s.poaNew_made name manager h
    rw [hnew]
    refine (Registry.consistent_snoc hs (values, hashFunctionFor values) ?_).mpr
      (consistent_hashFunctionFor (accepted_of_setPolicies h))
    simp [Registry.made, Adaptor.made]

theorem Registry.Consistent.addChild (hs : s.Consistent) (poa : Nat) (child : Option Nat)
    (name : List UInt8) : (s.addChild poa child name).Consistent := by
  rw [Registry.consistent_iff, Registry.made_addChild]
  exact Registry.consistent_iff.mp hs

theorem Registry.Consistent.setupRoot (hs : s.Consistent) : s.setupRoot.1.Consistent := by
  have h := hs.poaNew rootName none (some [⟨implicitActivationPolicyId, implicitActivationValue⟩])
  unfold Registry.setupRoot
  split
  · rename_i s' poa hnew
    rw [hnew] at h
    exact h
  · rename_i s' hnew
    rw [hnew] at h
    exact h

theorem Registry.Consistent.createPOA (hs : s.Consistent) (poa : Option Nat)
    (adaptorName : Option (List UInt8)) (manager : Option Nat) (policies : Option (List Policy)) :
    (s.createPOA poa adaptorName manager policies).1.Consistent := by
  unfold Registry.createPOA
  split
  · exact hs
  · exact hs
  · exact hs
  · split
    · exact hs
    · exact (hs.poaNew _ manager _).addChild _ _ _

/-- What `ORBit_POA_new_from` makes has the map of a POA that makes its own ids. -/
theorem Registry.made_newFrom {p : Nat} {a : Adaptor} (ha : s.adaptors[p]? = some a)
    (adaptorName : List UInt8) (optPolicies : Option (List Policy)) :
    (s.newFrom (some p) adaptorName optPolicies).1.made =
      s.made ++ [(overridden a.policies optPolicies, .sysid)] := by
  obtain ⟨managers, m, hnew⟩ := s.poaNew_made adaptorName (some a.poaManager) (rfl : setPolicies none = some defaultPolicies)
  unfold Registry.newFrom
  simp only [Option.bind_some, ha, Option.map_some, hnew, Registry.made_addChild]
  have hfun : hashFunctionFor (overridden defaultPolicies none) = .sysid := rfl
  simp [Registry.made, Adaptor.made, modify_snoc, hfun]

theorem Registry.newFrom_none {parent : Option Nat} (h : (parent.bind fun p => s.adaptors[p]?) = none)
    (adaptorName : List UInt8) (optPolicies : Option (List Policy)) :
    s.newFrom parent adaptorName optPolicies = (s, .nil) := by
  unfold Registry.newFrom
  cases parent with
  | none => rfl
  | some p =>
    have hp : s.adaptors[p]? = none := h
    simp [hp]

theorem Registry.Consistent.step_iff (hs : s.Consistent) (c : Creation) :
    (s.step c).Consistent ↔ s.Careful c := by
  cases c with
  | setupRoot => exact iff_of_true hs.setupRoot trivial
  | createPOA poa adaptorName manager policies =>
    exact iff_of_true (hs.createPOA poa adaptorName manager policies) trivial
  | newFrom parent adaptorName optPolicies =>
    cases h : parent.bind fun p => s.adaptors[p]? with
    | none =>
      refine iff_of_true ?_ ?_
      · have hstep : s.step (.newFrom parent adaptorName optPolicies) = s :=
          congrArg Prod.fst (Registry.newFrom_none h adaptorName optPolicies)
        rw [hstep]
        exact hs
      · intro p hp a ha
        cases hp
        cases h.symm.trans ha
    | some a =>
      obtain ⟨p, rfl, ha⟩ := Option.bind_eq_some_iff.mp h
      have hmade := Registry.consistent_snoc hs _ (Registry.made_newFrom ha adaptorName optPolicies)
      refine hmade.trans (consistent_sysid_iff.trans ⟨?_, fun hc => hc p rfl a ha⟩)
      intro hgood q hq b hb
      cases hq
      cases ha.symm.trans hb
      exact hgood

/-- A creation that is refused has left everything as it was. -/
theorem Registry.create_refused (s : Registry) (c : Creation) (h : ∀ p, (s.create c).2 ≠ .poa p) :
    (s.create c).1 = s := by
  cases c with
  | setupRoot => exact absurd rfl (h s.adaptors.length)
  | createPOA poa adaptorName manager policies =>
    unfold Registry.create Registry.createPOA at h ⊢
    dsimp only at h ⊢
    split
    · rfl
    · rfl
    · rfl
    · rename_i p parent name policies hpoa
      split
      · rfl
      · rename_i hname
        rw [hpoa] at h
        simp only [if_neg hname] at h
        cases hset : setPolicies (some policies) with
        | none =>
          rw [Registry.poaNew_refused hset]
          rfl
        | some values =>
          obtain ⟨managers, m, hnew⟩ := s.poaNew_made name manager hset
          rw [hnew] at h
          exact absurd rfl (h s.adaptors.length)
  | newFrom parent adaptorName optPolicies =>
    cases hparent : parent.bind fun p => s.adaptors[p]? with
    | none => exact congrArg Prod.fst (Registry.newFrom_none hparent adaptorName optPolicies)
    | some a =>
      obtain ⟨p, rfl, ha⟩ := Option.bind_eq_some_iff.mp hparent
      obtain ⟨managers, m, hnew⟩ := s.poaNew_made adaptorName (some a.poaManager)
        (rfl : setPolicies none = some defaultPolicies)
      unfold Registry.create Registry.newFrom at h
      simp only [Option.bind_some, ha, Option.map_some, hnew] at h
      exact absurd rfl (h s.adaptors.length)

end

/-- The POAs that a sequence of creations has made are consistent all along exactly if every
`ORBit_POA_new_from` among them ends with good policies and system ids; what is refused changes nothing. -/
theorem consistent_iff_careful (calls : List Creation) :
    (Runs.Always Registry.step Registry.Consistent .init calls ↔
      Runs.Meets Registry.step Registry.Careful .init calls) ∧
    ∀ (s : Registry) (c : Creation), (∀ p, (s.create c).2 ≠ .poa p) → s.step c = s := by
  have hinit : Registry.init.Consistent := by
    intro a ha
    cases ha
  have hstep : ∀ (s : Registry) (c : Creation), s.Consistent → ((s.step c).Consistent ↔ s.Careful c) :=
    fun s c hs => hs.step_iff c
  exact ⟨Runs.always_iff_meets hstep hinit, Registry.create_refused⟩

/-- The root makes its own ids and activates implicitly; the other POA is to have ids of its users. -/
def userIdsFromRoot : List Creation :=
  [.setupRoot, .newFrom (some 0) [117] (some [⟨idAssignmentPolicyId, userId⟩])]

/-- An empty id is hashed by the four bytes behind its start. -/
theorem not_consistent_userIdsFromRoot :
    ¬ Runs.Always Registry.step Registry.Consistent .init userIdsFromRoot ∧
    ∃ a, (Runs.run Registry.step .init userIdsFromRoot).adaptors[1]? = some a ∧
      a.policies.idAssignment = userId ∧ ¬ a.policies.Accepted ∧
      a.hashFunction.hash .little [] = none := by
  refine ⟨fun h => ?_, _, rfl, by decide, by decide, rfl⟩
  have hlast := h.last
  have hmem : ∃ a ∈ (Runs.run Registry.step .init userIdsFromRoot).adaptors,
      a.policies.idAssignment = userId ∧ a.hashFunction.hash .little [] = none := by decide
  obtain ⟨a, ha, hu, hnone⟩ := hmem
  have hsome := (hlast a ha).within hu .little []
  rw [hnone] at hsome
  cases hsome

end ORBit2.PoaCreation
