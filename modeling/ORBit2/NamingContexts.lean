import Mathlib

/-! The naming contexts of the name server (orbit-name-server.c): compound names are handed on from
one context to the next. -/

set_option autoImplicit false

namespace ORBit2

/-- `CosNaming_NameComponent`. -/
structure NameComponent where
  id : String
  kind : String
  deriving DecidableEq, Repr

/-- An object reference: nil, a naming context or another object. -/
inductive NamedObject where
  | nil
  | context (i : Nat)
  | object (i : Nat)
  deriving DecidableEq, Repr

structure RegisteredName where
  obj : NamedObject
  isSubctx : Bool
  deriving DecidableEq, Repr

/-- `servant->names`. -/
abbrev NamingTable : Type := NameComponent → Option RegisteredName

/-- The contexts that exist, the other objects that exist, and the next context to be created. -/
structure NamingGraph where
  contexts : Nat → Option NamingTable
  exist : Nat → Bool
  next : Nat

inductive NotFoundReason where
  | missingNode
  | notContext
  deriving DecidableEq, Repr

inductive NamingException where
  | notFound (why : NotFoundReason) (restOfName : List NameComponent)
  | alreadyBound
  /-- the object that is called does not exist, or is no naming context -/
  | system
  deriving DecidableEq, Repr

/-- What a call leaves, and what it returns; nil where it returns nothing. -/
abbrev NamingOutcome : Type := NamingGraph × Except NamingException NamedObject

namespace NamingGraph
variable (g : NamingGraph)

/-- `CORBA_Object_non_existent`. -/
def nonExistent : NamedObject → Bool
  | .nil => true
  | .context i => (g.contexts i).isNone
  | .object i => !g.exist i

def setNames (i : Nat) (names : NamingTable) : NamingGraph :=
  { g with contexts := Function.update g.contexts i (some names) }

/-- A call at a servant, with the names it holds. -/
def atServant (i : Nat) (impl : NamingTable → NamingOutcome) : NamingOutcome :=
  match g.contexts i with
  | none => (g, .error .system)
  | some names => impl names

/-- A call of the same kind at the object that is bound. -/
def callAt (obj : NamedObject) (call : Nat → NamingOutcome) : NamingOutcome :=
  match obj with
  | .context i => call i
  | _ => (g, .error .system)

@[grind =] def notFound (nom : Option RegisteredName) (n : List NameComponent) : NamingOutcome :=
  (g, .error (.notFound (if nom.isSome then .notContext else .missingNode) n))

/-- What is done with a name of more than one component: `n2` goes to the context that the first
one is bound to. -/
def handOn (nom : Option RegisteredName) (n : List NameComponent) (call : Nat → NamingOutcome) :
    NamingOutcome :=
  match nom with
  | some ⟨obj, true⟩ => g.callAt obj call
  | _ => g.notFound nom n

/-- `rn_new` and `g_hash_table_insert`. -/
def insertName (i : Nat) (names : NamingTable) (nc : NameComponent) (obj : NamedObject)
    (isSubctx : Bool) : NamingGraph :=
  g.setNames i (Function.update names nc (some ⟨obj, isSubctx⟩))

/-- The binding of one component in `impl_NamingContext_bind` and its sibling. -/
def bindHere (i : Nat) (names : NamingTable) (nc : NameComponent) (obj : NamedObject)
    (isSubctx : Bool) : NamingOutcome :=
  match names nc with
  | none => (g.insertName i names nc obj isSubctx, .ok .nil)
  | some nom =>
      if !g.nonExistent nom.obj then (g, .error .alreadyBound)
      else (g.insertName i (Function.update names nc none) nc obj isSubctx, .ok .nil)

/-- The rebinding of one component. -/
def rebindHere (i : Nat) (names : NamingTable) (nc : NameComponent) (obj : NamedObject)
    (isSubctx : Bool) : NamingOutcome :=
  (g.insertName i (Function.update names nc none) nc obj isSubctx, .ok .nil)

/-! ### The operations -/

/-- `impl_NamingContext_unbind`. -/
@[grind =] def unbind : List NameComponent → Nat → NamingOutcome
  | [], i => g.atServant i fun _ => g.notFound none []
  | [nc], i => g.atServant i fun names =>
      match names nc with
      | some _ => (g.setNames i (Function.update names nc none), .ok .nil)
      | none => g.notFound none [nc]
  | nc :: nc2 :: n2, i => g.atServant i fun names =>
      g.handOn (names nc) (nc :: nc2 :: n2) fun j => unbind (nc2 :: n2) j

/-- `impl_NamingContext_bind`. -/
@[grind =] def bind (obj : NamedObject) : List NameComponent → Nat → NamingOutcome
  | [], i => g.atServant i fun _ => g.notFound none []
  | [nc], i => g.atServant i fun names => g.bindHere i names nc obj false
  | nc :: nc2 :: n2, i => g.atServant i fun names =>
      g.handOn (names nc) (nc :: nc2 :: n2) fun j => bind obj (nc2 :: n2) j

/-- `impl_NamingContext_rebind`. -/
@[grind =] def rebind (obj : NamedObject) : List NameComponent → Nat → NamingOutcome
  | [], i => g.atServant i fun _ => g.notFound none []
  | [nc], i => g.atServant i fun names => g.rebindHere i names nc obj false
  | nc :: nc2 :: n2, i => g.atServant i fun names =>
      g.handOn (names nc) (nc :: nc2 :: n2) fun j => rebind obj (nc2 :: n2) j

/-- `impl_NamingContext_bind_context`: the rest of the name goes to `bind`. -/
def bindContext (context : NamedObject) : List NameComponent → Nat → NamingOutcome
  | [], i => g.atServant i fun _ => g.notFound none []
  | [nc], i => g.atServant i fun names => g.bindHere i names nc context true
  | nc :: nc2 :: n2, i => g.atServant i fun names =>
      g.handOn (names nc) (nc :: nc2 :: n2) fun j => g.bind context (nc2 :: n2) j

/-- `impl_NamingContext_rebind_context`. -/
@[grind =] def rebindContext (context : NamedObject) : List NameComponent → Nat → NamingOutcome
  | [], i => g.atServant i fun _ => g.notFound none []
  | [nc], i => g.atServant i fun names => g.rebindHere i names nc context true
  | nc :: nc2 :: n2, i => g.atServant i fun names =>
      g.handOn (names nc) (nc :: nc2 :: n2) fun j => rebindContext context (nc2 :: n2) j

/-- `impl_NamingContext_resolve`: a name of more than one component is handed on to whatever the
first is bound to. -/
@[grind =] def resolve : List NameComponent → Nat → NamingOutcome
  | [], i => g.atServant i fun _ => g.notFound none []
  | [nc], i => g.atServant i fun names =>
      match names nc with
      | none => g.notFound none [nc]
      | some nom =>
          if !g.nonExistent nom.obj then (g, .ok nom.obj)
          else (g.setNames i (Function.update names nc none), .error (.notFound .missingNode [nc]))
  | nc :: nc2 :: n2, i => g.atServant i fun names =>
      match names nc with
      | none => g.notFound none (nc :: nc2 :: n2)
      | some nom => g.callAt nom.obj fun j => resolve (nc2 :: n2) j

/-- `impl_NamingContext_new_context`. -/
def newContext : NamingGraph × NamedObject :=
  ({ g with contexts := Function.update g.contexts g.next (some fun _ => none), next := g.next + 1 },
    .context g.next)

/-- The binding of one component in `impl_NamingContext_bind_new_context`. -/
def bindNewHere (i : Nat) (names : NamingTable) (nc : NameComponent) : NamingOutcome :=
  match names nc with
  | some nom =>
      if !g.nonExistent nom.obj then (g, .error .alreadyBound)
      else
        let (g', retval) := (g.setNames i (Function.update names nc none)).newContext
        ((g'.bindContext retval [nc] i).1, .ok retval)
  | none =>
      let (g', retval) := g.newContext
      ((g'.bindContext retval [nc] i).1, .ok retval)

/-- `impl_NamingContext_bind_new_context`. -/
@[grind =] def bindNewContext : List NameComponent → Nat → NamingOutcome
  | [], i => g.atServant i fun _ => g.notFound none []
  | [nc], i => g.atServant i fun names => g.bindNewHere i names nc
  | nc :: nc2 :: n2, i => g.atServant i fun names =>
      g.handOn (names nc) (nc :: nc2 :: n2) fun j => bindNewContext (nc2 :: n2) j

/-! ### Where a name leads -/

/-- Where the first components of a name lead. -/
inductive NamePath where
  | leads (i : Nat)
  /-- a component is not bound, or not bound as a subcontext -/
  | broken
  /-- a subcontext does not exist, or is no naming context -/
  | lost
  deriving DecidableEq, Repr

def follow (i : Nat) (next : NamingTable → NamePath) : NamePath :=
  match g.contexts i with
  | none => .lost
  | some names => next names

def NamePath.enter (obj : NamedObject) (next : Nat → NamePath) : NamePath :=
  match obj with
  | .context i => next i
  | _ => .lost

/-- Where the components lead, through subcontexts only. -/
@[grind =] def path : List NameComponent → Nat → NamePath
  | [], i => g.follow i fun _ => .leads i
  | nc :: ncs, i => g.follow i fun names =>
      match names nc with
      | some ⟨obj, true⟩ => NamePath.enter obj fun j => path ncs j
      | _ => .broken

/-- Where the components lead, through whatever they are bound to. -/
@[grind =] def loosePath : List NameComponent → Nat → NamePath
  | [], i => g.follow i fun _ => .leads i
  | nc :: ncs, i => g.follow i fun names =>
      match names nc with
      | some nom => NamePath.enter nom.obj fun j => loosePath ncs j
      | none => .broken

/-! ### Handing on -/

/-- An operation is handed on to the context that the first component is bound to. -/
def HandsOn (op : List NameComponent → Nat → NamingOutcome) : Prop :=
  ∀ nc n i, n ≠ [] → op (nc :: n) i = g.atServant i fun names =>
    g.handOn (names nc) (nc :: n) fun j => op n j

/-- An operation is carried out by a context that exists. -/
def Served (op : List NameComponent → Nat → NamingOutcome) : Prop :=
  ∀ n i, g.contexts i = none → op n i = (g, .error .system)

/-- What comes of an operation with a name whose first components lead there. -/
def EndsAt (op : List NameComponent → Nat → NamingOutcome) (last : NameComponent)
    (outcome : NamingOutcome) : NamePath → Prop
  | .leads c => outcome = op [last] c
  | .broken => ∃ why restOfName, outcome = (g, .error (.notFound why restOfName))
  | .lost => outcome = (g, .error .system)

variable {g} {op : List NameComponent → Nat → NamingOutcome}

theorem HandsOn.endsAt (h : g.HandsOn op) (hs : g.Served op) (last : NameComponent)
    (ncs : List NameComponent) (i : Nat) :
    g.EndsAt op last (op (ncs ++ [last]) i) (g.path ncs i) := by
  induction ncs generalizing i with
  | nil =>
    rw [path, follow]
    cases hi : g.contexts i with
    | none => exact hs [last] i hi
    | some names => rfl
  | cons nc ncs ih =>
    rw [List.cons_append, h nc (ncs ++ [last]) i (List.append_ne_nil_of_right_ne_nil _ (List.cons_ne_nil _ _)),
      path, follow, atServant]
    cases g.contexts i with
    | none => rfl
    | some names =>
      simp only
      cases hnom : names nc with
      | none => exact ⟨_, _, rfl⟩
      | some nom =>
        obtain ⟨obj, isSubctx⟩ := nom
        cases isSubctx with
        | false => exact ⟨_, _, rfl⟩
        | true =>
          cases obj with
          | nil => rfl
          | object j => rfl
          | context j => exact ih j

section
variable (obj context : NamedObject)

theorem handsOn_unbind : g.HandsOn g.unbind := by
  intro nc n i hn
  cases n with
  | nil => exact absurd rfl hn
  | cons nc2 n2 => rfl

theorem handsOn_bind : g.HandsOn (g.bind obj) := by
  intro nc n i hn
  cases n with
  | nil => exact absurd rfl hn
  | cons nc2 n2 => rfl

theorem handsOn_rebind : g.HandsOn (g.rebind obj) := by
  intro nc n i hn
  cases n with
  | nil => exact absurd rfl hn
  | cons nc2 n2 => rfl

theorem handsOn_rebindContext : g.HandsOn (g.rebindContext context) := by
  intro nc n i hn
  cases n with
  | nil => exact absurd rfl hn
  | cons nc2 n2 => rfl

theorem handsOn_bindNewContext : g.HandsOn g.bindNewContext := by
  intro nc n i hn
  cases n with
  | nil => exact absurd rfl hn
  | cons nc2 n2 => rfl

theorem atServant_none {i : Nat} (hi : g.contexts i = none) (impl : NamingTable → NamingOutcome) :
    g.atServant i impl = (g, .error .system) := by
  rw [atServant, hi]

theorem atServant_some {i : Nat} {names : NamingTable} (hi : g.contexts i = some names)
    (impl : NamingTable → NamingOutcome) : g.atServant i impl = impl names := by
  rw [atServant, hi]

theorem served_unbind : g.Served g.unbind
  | [], _, hi | [_], _, hi | _ :: _ :: _, _, hi => atServant_none hi _

theorem served_bind : g.Served (g.bind obj)
  | [], _, hi | [_], _, hi | _ :: _ :: _, _, hi => atServant_none hi _

theorem served_rebind : g.Served (g.rebind obj)
  | [], _, hi | [_], _, hi | _ :: _ :: _, _, hi => atServant_none hi _

theorem served_rebindContext : g.Served (g.rebindContext context)
  | [], _, hi | [_], _, hi | _ :: _ :: _, _, hi => atServant_none hi _

theorem served_bindNewContext : g.Served g.bindNewContext
  | [], _, hi | [_], _, hi | _ :: _ :: _, _, hi => atServant_none hi _

end

/-- The rest of a name goes to `bind`, with which it would have gone there from the beginning. -/
theorem bindContext_compound (context : NamedObject) (nc nc2 : NameComponent)
    (n2 : List NameComponent) (i : Nat) :
    g.bindContext context (nc :: nc2 :: n2) i = g.bind context (nc :: nc2 :: n2) i := rfl

theorem resolve_endsAt (last : NameComponent) (ncs : List NameComponent) (i : Nat) :
    g.EndsAt g.resolve last (g.resolve (ncs ++ [last]) i) (g.loosePath ncs i) := by
  induction ncs generalizing i with
  | nil =>
    rw [loosePath, follow]
    cases hi : g.contexts i with
    | none => exact atServant_none hi _
    | some names => rfl
  | cons nc ncs ih =>
    obtain ⟨nc2, n2, hn⟩ : ∃ nc2 n2, ncs ++ [last] = nc2 :: n2 :=
      List.exists_cons_of_ne_nil (List.append_ne_nil_of_right_ne_nil _ (List.cons_ne_nil _ _))
    rw [hn] at ih
    rw [List.cons_append, hn, resolve, loosePath, follow, atServant]
    cases g.contexts i with
    | none => rfl
    | some names =>
      simp only
      cases hnom : names nc with
      | none => exact ⟨_, _, rfl⟩
      | some nom =>
        simp only
        cases nom.obj with
        | nil => rfl
        | object j => rfl
        | context j => exact ih j

/-- Where the subcontexts lead, all bindings lead. -/
theorem loosePath_of_path {c : Nat} {ncs : List NameComponent} {i : Nat}
    (h : g.path ncs i = .leads c) : g.loosePath ncs i = .leads c := by
  induction ncs generalizing i with
  | nil => exact h
  | cons nc ncs ih =>
    rw [path, follow] at h
    rw [loosePath, follow]
    cases hi : g.contexts i with
    | none =>
      rw [hi] at h
      cases h
    | some names =>
      rw [hi] at h
      simp only at h ⊢
      cases hnom : names nc with
      | none =>
        rw [hnom] at h
        cases h
      | some nom =>
        obtain ⟨obj, isSubctx⟩ := nom
        rw [hnom] at h
        cases isSubctx with
        | false => cases h
        | true =>
          cases obj with
          | nil => cases h
          | object j => cases h
          | context j => exact ih h

/-! ### Compound names -/

/-- The operations that take a name. -/
inductive Operation where
  | bind (obj : NamedObject)
  | rebind (obj : NamedObject)
  | bindContext (context : NamedObject)
  | rebindContext (context : NamedObject)
  | bindNewContext
  | resolve
  | unbind

variable (g)

def run : Operation → List NameComponent → Nat → NamingOutcome
  | .bind obj => g.bind obj
  | .rebind obj => g.rebind obj
  | .bindContext context => g.bindContext context
  | .rebindContext context => g.rebindContext context
  | .bindNewContext => g.bindNewContext
  | .resolve => g.resolve
  | .unbind => g.unbind

variable (i : Nat) (first : NameComponent) (middle : List NameComponent) (last : NameComponent)

/-- With a compound name the operation is the one that the last component has in the context where
the others lead, through subcontexts; or nothing happens and the name is not found. -/
def Compound (op : Operation) : Prop :=
  match g.path (first :: middle) i with
  | .leads c => g.run op (first :: (middle ++ [last])) i = g.run op [last] c
  | _ => ∃ why restOfName,
      g.run op (first :: (middle ++ [last])) i = (g, .error (.notFound why restOfName))

/-- When that is so: no subcontext on the way is missing; `bind_context` finds a binding of the last
component that still exists, or the way is broken; and `resolve` finds a way through subcontexts, or
through whatever is bound a component that is not. -/
def Operation.Meets : Operation → Prop
  | .bindContext _ =>
      match g.path (first :: middle) i with
      | .leads c => ∃ names nom, g.contexts c = some names ∧ names last = some nom ∧
          g.nonExistent nom.obj = false
      | .broken => True
      | .lost => False
  | .resolve =>
      (∃ c, g.path (first :: middle) i = .leads c) ∨ g.loosePath (first :: middle) i = .broken ∨
        ∃ c names, g.loosePath (first :: middle) i = .leads c ∧ g.contexts c = some names ∧
          names last = none
  | _ => g.path (first :: middle) i ≠ .lost

variable {g i first middle last}

theorem contexts_of_leads {ncs : List NameComponent} {c : Nat} {k : Nat} (h : g.loosePath ncs k = .leads c) :
    ∃ names, g.contexts c = some names := by
  induction ncs generalizing k with
  | nil =>
    rw [loosePath, follow] at h
    cases hk : g.contexts k with
    | none =>
      rw [hk] at h
      cases h
    | some names =>
      rw [hk] at h
      cases h
      exact ⟨names, hk⟩
  | cons nc ncs ih =>
    rw [loosePath, follow] at h
    cases hk : g.contexts k with
    | none =>
      rw [hk] at h
      cases h
    | some names =>
      rw [hk] at h
      simp only at h
      cases hnom : names nc with
      | none =>
        rw [hnom] at h
        cases h
      | some nom =>
        rw [hnom] at h
        simp only at h
        cases hobj : nom.obj with
        | nil =>
          rw [hobj] at h
          cases h
        | object j =>
          rw [hobj] at h
          cases h
        | context j =>
          rw [hobj] at h
          exact ih h

theorem compound_iff_of_handsOn {op : Operation} (h : g.HandsOn (g.run op)) (hs : g.Served (g.run op)) :
    g.Compound i first middle last op ↔ g.path (first :: middle) i ≠ .lost := by
  have hend := h.endsAt hs last (first :: middle) i
  rw [List.cons_append] at hend
  rw [Compound]
  cases hpath : g.path (first :: middle) i with
  | leads c =>
    rw [hpath] at hend
    exact ⟨fun _ => nofun, fun _ => hend⟩
  | broken =>
    rw [hpath] at hend
    exact ⟨fun _ => nofun, fun _ => hend⟩
  | lost =>
    rw [hpath] at hend
    refine ⟨?_, fun hne => absurd rfl hne⟩
    rintro ⟨why, restOfName, hrun⟩
    cases hrun.symm.trans hend

/-- A new binding tells whether it is a subcontext. -/
theorem bind_eq_bindContext_iff {c : Nat} {names : NamingTable} (hc : g.contexts c = some names)
    (obj : NamedObject) :
    g.bind obj [last] c = g.bindContext obj [last] c ↔
      ∃ nom, names last = some nom ∧ g.nonExistent nom.obj = false := by
  rw [bind, bindContext, atServant_some hc, atServant_some hc]
  have hdiffer : ∀ (names : NamingTable),
      (g.insertName c names last obj false, (.ok .nil : Except NamingException NamedObject)) ≠
        (g.insertName c names last obj true, .ok .nil) := by
    intro names h
    have hbound := congrArg (fun o : NamingOutcome => (o.1.contexts c).bind (· last)) h
    simp [insertName, setNames] at hbound
  simp only [bindHere]
  cases hnom : names last with
  | none => exact ⟨fun h => absurd h (hdiffer _), fun ⟨_, h, _⟩ => nomatch h⟩
  | some nom =>
    cases hexist : g.nonExistent nom.obj with
    | false =>
      refine ⟨fun _ => ⟨nom, rfl, hexist⟩, fun _ => ?_⟩
      simp [hexist]
    | true =>
      simp only [hexist, Bool.not_true, Bool.false_eq_true, if_false]
      refine ⟨fun h => absurd h (hdiffer _), ?_⟩
      rintro ⟨nom', h, hex⟩
      cases h
      rw [hexist] at hex
      cases hex

/-- Nothing happens, and the name is not found, where the component is not bound. -/
theorem resolve_notFound_iff {c : Nat} {names : NamingTable} (hc : g.contexts c = some names) :
    (∃ why restOfName, g.resolve [last] c = (g, .error (.notFound why restOfName))) ↔
      names last = none := by
  rw [resolve, atServant_some hc]
  cases hnom : names last with
  | none => exact ⟨fun _ => rfl, fun _ => ⟨_, _, rfl⟩⟩
  | some nom =>
    refine ⟨?_, nofun⟩
    rintro ⟨why, restOfName, h⟩
    simp only at h
    split at h
    · cases h
    · have hbound := congrArg (fun o : NamingOutcome => (o.1.contexts c).bind (· last)) h
      simp [setNames, hc, hnom] at hbound

theorem compound_bindContext_iff (context : NamedObject) :
    g.Compound i first middle last (.bindContext context) ↔
      Operation.Meets g i first middle last (.bindContext context) := by
  have hend : g.EndsAt (g.bind context) last (g.bind context (first :: middle ++ [last]) i)
      (g.path (first :: middle) i) := (handsOn_bind context).endsAt (served_bind context) last _ i
  obtain ⟨nc2, n2, hn⟩ : ∃ nc2 n2, middle ++ [last] = nc2 :: n2 :=
    List.exists_cons_of_ne_nil (List.append_ne_nil_of_right_ne_nil _ (List.cons_ne_nil _ _))
  rw [List.cons_append, hn, ← bindContext_compound] at hend
  rw [Compound, Operation.Meets, hn, run]
  cases hpath : g.path (first :: middle) i with
  | leads c =>
    rw [hpath] at hend
    obtain ⟨names, hc⟩ := contexts_of_leads (loosePath_of_path hpath)
    have hend : g.bindContext context (first :: nc2 :: n2) i = g.bind context [last] c := hend
    simp only [hend, bind_eq_bindContext_iff hc]
    constructor
    · rintro ⟨nom, hnom, hexist⟩
      exact ⟨names, nom, hc, hnom, hexist⟩
    · rintro ⟨names', nom, hc', hnom, hexist⟩
      rw [hc] at hc'
      cases hc'
      exact ⟨nom, hnom, hexist⟩
  | broken =>
    rw [hpath] at hend
    exact ⟨fun _ => trivial, fun _ => hend⟩
  | lost =>
    rw [hpath] at hend
    refine ⟨?_, False.elim⟩
    rintro ⟨why, restOfName, hrun⟩
    cases hrun.symm.trans hend

theorem compound_resolve_iff :
    g.Compound i first middle last .resolve ↔ Operation.Meets g i first middle last .resolve := by
  have hend := g.resolve_endsAt last (first :: middle) i
  rw [List.cons_append] at hend
  have hnotFound : (∃ why restOfName,
      g.resolve (first :: (middle ++ [last])) i = (g, .error (.notFound why restOfName))) ↔
      g.loosePath (first :: middle) i = .broken ∨
        ∃ c names, g.loosePath (first :: middle) i = .leads c ∧ g.contexts c = some names ∧
          names last = none := by
    cases hloose : g.loosePath (first :: middle) i with
    | leads c =>
      rw [hloose] at hend
      obtain ⟨names, hc⟩ := contexts_of_leads hloose
      have hend : g.resolve (first :: (middle ++ [last])) i = g.resolve [last] c := hend
      simp only [hend, resolve_notFound_iff hc]
      constructor
      · intro hlast
        exact .inr ⟨c, names, rfl, hc, hlast⟩
      · rintro (⟨⟨⟩⟩ | ⟨c', names', ⟨⟩, hc', hlast⟩)
        rw [hc] at hc'
        cases hc'
        exact hlast
    | broken =>
      rw [hloose] at hend
      exact ⟨fun _ => .inl rfl, fun _ => hend⟩
    | lost =>
      rw [hloose] at hend
      have hend : g.resolve (first :: (middle ++ [last])) i = (g, .error .system) := hend
      rw [hend]
      constructor
      · rintro ⟨why, restOfName, ⟨⟩⟩
      · rintro (⟨⟨⟩⟩ | ⟨_, _, ⟨⟩, _, _⟩)
  rw [Compound, Operation.Meets, run, ← hnotFound]
  cases hpath : g.path (first :: middle) i with
  | leads c =>
    rw [loosePath_of_path hpath] at hend
    exact ⟨fun _ => .inl ⟨c, rfl⟩, fun _ => hend⟩
  | broken => exact ⟨.inr, fun h => h.elim (fun ⟨_, h⟩ => nomatch h) id⟩
  | lost => exact ⟨.inr, fun h => h.elim (fun ⟨_, h⟩ => nomatch h) id⟩

/-- An operation with a compound name is the one with its last component, in the context where the
others lead, exactly when it meets its condition. -/
theorem compound_iff (g : NamingGraph) (i : Nat) (first : NameComponent)
    (middle : List NameComponent) (last : NameComponent) (op : Operation) :
    g.Compound i first middle last op ↔ Operation.Meets g i first middle last op := by
  cases op with
  | bind obj => exact compound_iff_of_handsOn (handsOn_bind obj) (served_bind obj)
  | rebind obj => exact compound_iff_of_handsOn (handsOn_rebind obj) (served_rebind obj)
  | bindContext context => exact compound_bindContext_iff context
  | rebindContext context =>
    exact compound_iff_of_handsOn (handsOn_rebindContext context) (served_rebindContext context)
  | bindNewContext => exact compound_iff_of_handsOn handsOn_bindNewContext served_bindNewContext
  | resolve => exact compound_resolve_iff
  | unbind => exact compound_iff_of_handsOn handsOn_unbind served_unbind

/-- Two contexts. In the first, the second is bound as a subcontext, and as an object. -/
def twoContexts : NamingGraph where
  contexts
    | 0 => some fun nc =>
        if nc = ⟨"sub", ""⟩ then some ⟨.context 1, true⟩
        else if nc = ⟨"obj", ""⟩ then some ⟨.context 1, false⟩
        else none
    | 1 => some fun nc => if nc = ⟨"x", ""⟩ then some ⟨.object 0, false⟩ else none
    | _ => none
  exist _ := true
  next := 2

/-- `bind_context` of a compound name does not bind a subcontext, and `resolve` of one goes through
a context that is bound as an object. -/
theorem not_compound :
    ¬ twoContexts.Compound 0 ⟨"sub", ""⟩ [] ⟨"y", ""⟩ (.bindContext (.context 0)) ∧
    (twoContexts.bindContext (.context 0) [⟨"sub", ""⟩, ⟨"y", ""⟩] 0).1.path
      [⟨"sub", ""⟩, ⟨"y", ""⟩] 0 = .broken ∧
    ¬ twoContexts.Compound 0 ⟨"obj", ""⟩ [] ⟨"x", ""⟩ .resolve ∧
    twoContexts.resolve [⟨"obj", ""⟩, ⟨"x", ""⟩] 0 = (twoContexts, .ok (.object 0)) := by
  refine ⟨?_, rfl, ?_, rfl⟩
  · intro h
    have h : twoContexts.bindContext (.context 0) [⟨"sub", ""⟩, ⟨"y", ""⟩] 0 =
        twoContexts.bindContext (.context 0) [⟨"y", ""⟩] 1 := h
    have hbound := congrArg (fun o : NamingOutcome => (o.1.contexts 1).bind (· ⟨"y", ""⟩)) h
    revert hbound
    decide
  · rintro ⟨why, restOfName, h⟩
    cases congrArg Prod.snd h

end NamingGraph

end ORBit2
