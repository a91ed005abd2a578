import ORBit2.ActiveObjectMap

/-! Calls of stubs in the same process: `ORBit_c_stub_invoke` goes straight to the method, past
`ORBit_POAObject_handle_request`. -/

set_option autoImplicit false

namespace ORBit2.PortableServer

/-- A method of an interface, and the place of its implementation in an epv. -/
structure Method where
  name : Nat
  offset : Nat

structure Interface where
  /-- given out when the class is registered, 0 before -/
  classId : Nat
  methods : List Method

/-- What the compiler generates for the servants of an interface: the interfaces they inherit
from, each with the index of its epv in `servant->vepv`. -/
structure Skeleton where
  own : Interface × Nat
  parents : List (Interface × Nat)

def Skeleton.interfaces (k : Skeleton) : List (Interface × Nat) := k.own :: k.parents

/-- A `gshort`. -/
def vepvIdx (n : Nat) : Nat := n % 2^16

/-- `VEPV_CACHE_SIZE` -/
def vepvCacheSize (map : List Nat) : Int :=
  let size := map.headD 0
  if size < 2^15 then size else size - 2^16

/-- `ORBit_skel_class_register`: the parents are read up to a class id of 0. -/
def Skeleton.vepvmap (k : Skeleton) : List Nat :=
  let size := k.own.1.classId + 1
  let map := ((List.replicate size 0).set 0 (vepvIdx size)).set k.own.1.classId (vepvIdx k.own.2)
  (k.parents.takeWhile fun i => i.1.classId ≠ 0).foldl
    (fun map i => map.set i.1.classId (vepvIdx i.2)) map

/-- What is found at a place in the epvs of a servant. -/
inductive Slot where
  /-- the place is outside them -/
  | wild
  | null
  | imp (n : Nat)
  deriving DecidableEq, Repr

/-- The servants, with the tables of pointers of each. -/
structure Servants where
  skeleton : Nat → Skeleton
  vepv : Nat → List (Option (List (Option Nat)))
  oneway : Nat → Nat → Bool
  finalizes : Nat → Bool

section
variable (k : Servants)

def Servants.slot (servant index : Nat) (offset : Int) : Slot :=
  match (k.vepv servant)[index]? with
  | none => .wild
  | some none => .null
  | some (some epv) =>
      match epv[offset.toNat]? with
      | none => .wild
      | some none => .null
      | some (some n) => .imp n

/-- `impl_finder`: it knows the operations of all interfaces of the class by name. -/
def Servants.implFinder (servant opname : Nat) : Option Nat :=
  (k.skeleton servant).interfaces.findSome? fun i =>
    (i.1.methods.find? fun m => m.name = opname).bind fun m =>
      match k.slot servant i.2 m.offset with
      | .imp n => some n
      | _ => none

/-- The world with these servants. -/
def Servants.world (w : World) : World :=
  { w with classInfo := fun servant =>
      { vepvmap := (k.skeleton servant).vepvmap
        implements := fun opname => (k.implFinder servant opname).isSome
        oneway := k.oneway servant
        finalizes := k.finalizes servant } }

/-- What a call of a stub comes to. -/
inductive StubCall where
  /-- NO_IMPLEMENT for an index out of range -/
  | noImplement
  /-- a table is read outside of it -/
  | wild
  /-- the implementation is called with the servant -/
  | method (servant imp : Nat)
  /-- `ORBit_small_invoke_stub_n` makes a request of it -/
  | request (opname : Nat)
  deriving DecidableEq, Repr

/-- `get_c_method`, with what `ORBit_poa_allow_cross_thread_call` says and
`ORBIT_SMALL_FORCE_GENERIC_MARSHAL`. -/
def Servants.getCMethod (s : State) (o : Nat) (classId offset : Int)
    (allowed force : Bool) : Option (Nat × Slot) :=
  match s.objects o with
  | none => none
  | some x =>
      match x.servant with
      | none => none
      | some servant =>
          if offset ≤ 0 ∨ classId ≤ 0 ∨ allowed = false ∨ force then none
          else match x.vepvmapCache with
            | none => none
            | some cache =>
                if classId ≥ vepvCacheSize cache then none
                else match k.slot servant (cache.getD classId.toNat 0) offset with
                  | .null => none
                  | slot => some (servant, slot)

/-- `ORBit_c_stub_invoke` -/
def Servants.cStubInvoke (s : State) (o : Nat) (methods : List Method) (index classId offset : Int)
    (skelImpl allowed force : Bool) : StubCall :=
  if index < 0 ∨ index > methods.length then .noImplement
  else match methods[index.toNat]? with
    | none => .wild
    | some m =>
        if skelImpl then
          match k.getCMethod s o classId offset allowed force with
          | none => .request m.name
          | some (servant, .imp n) => .method servant n
          | some _ => .wild
        else .request m.name

end

/-- `ORBit_POAObject_handle_request` calls the method of the servant for a request in this
process. -/
def State.Dispatches (w : World) (s : State) (c : Call) (servant : Nat) : Prop :=
  ∃ s', s.handleRequest w c = .ok (s', [.method c 0]) ∧
    s'.visits = s.visits ++ [.dispatch c.number servant]

/-- A stub that goes straight to a method goes to that of the request. -/
def Servants.Agrees (k : Servants) (w : World) (s : State) (c : Call) : StubCall → Prop
  | .method servant n =>
      s.Dispatches (k.world w) c servant ∧ k.implFinder servant c.opname = some n
  | .wild => False
  | .noImplement | .request _ => True

section
variable {w : World} {s s₁ : State} {c : Call} {x : POAObject} {servant : Nat}

/-- With a servant at the object, the request gets to it exactly if the manager is active and the
servant has an implementation. -/
theorem dispatches_iff {servant' : Nat} (hx : s.objects c.object = some x)
    (hsv : x.servant = some servant) (hl : s.lock w c.poa = .ok s₁) :
    s.Dispatches w c servant' ↔ servant' = servant ∧
      (s.managers (w.manager x.poa)).state = .active ∧
      (w.classInfo servant).implements c.opname = true := by
  have hobj : s.object c.object = .ok x := by
    unfold State.object
    rw [hx]
  have hobj₁ : s₁.object c.object = .ok x := by
    unfold State.object
    rw [State.lock_objects hl, hx]
  unfold State.Dispatches State.handleRequest
  rw [hobj, Outcomes.ok_bind]
  dsimp only
  rw [hl, Outcomes.ok_bind, State.lock_managers hl]
  cases hm : (s.managers (w.manager x.poa)).state with
  | holding => simp
  | discarding => simp
  | inactive => simp
  | active =>
    dsimp only
    rw [if_pos (by simp [hsv])]
    unfold State.dispatch
    rw [hobj₁, Outcomes.ok_bind]
    simp only [hsv]
    split
    · rename_i himp
      constructor
      · rintro ⟨s', hs', hv⟩
        cases hs'
        have hv : s₁.visits ++ [Visit.dispatch c.number servant] =
            s.visits ++ [Visit.dispatch c.number servant'] := hv
        rw [State.lock_visits hl] at hv
        have hlast := List.append_cancel_left hv
        simp only [List.cons.injEq, Visit.dispatch.injEq, true_and, and_true] at hlast
        exact ⟨hlast.symm, trivial, himp⟩
      · rintro ⟨rfl, -, -⟩
        refine ⟨_, rfl, ?_⟩
        show s₁.visits ++ [Visit.dispatch c.number servant'] = _
        rw [State.lock_visits hl]
    · rename_i himp
      constructor
      · rintro ⟨s', hs', -⟩
        unfold State.endRequest at hs'
        obtain ⟨⟨s₂, ks⟩, -, hs'⟩ := Outcomes.of_bind hs'
        simp only [Except.ok.injEq, Prod.mk.injEq] at hs'
        have hlen := congrArg List.length hs'.2
        simp only [List.length_append, List.length_cons, List.length_nil] at hlen
        omega
      · rintro ⟨-, -, himp'⟩
        exact absurd himp' himp

/-- A stub looks for the method in the tables of the servant, through this map. -/
def POAObject.Direct (x : POAObject) (servant : Nat) (cache : List Nat) (classId offset : Int)
    (allowed force : Bool) : Prop :=
  x.servant = some servant ∧ 0 < offset ∧ 0 < classId ∧ allowed = true ∧ force = false ∧
    x.vepvmapCache = some cache ∧ classId < vepvCacheSize cache

/-- The place that a stub finds is empty, or holds the implementation that the servant has for the
name, and the manager lets requests through. -/
def Servants.Fits (k : Servants) (w : World) (s : State) (c : Call) (x : POAObject)
    (classId offset : Int) (allowed force : Bool) : Prop :=
  ∀ servant cache, x.Direct servant cache classId offset allowed force →
    k.slot servant (cache.getD classId.toNat 0) offset = .null ∨
    ((s.managers (w.manager x.poa)).state = .active ∧
      ∃ n, k.slot servant (cache.getD classId.toNat 0) offset = .imp n ∧
        k.implFinder servant c.opname = some n)

variable {k : Servants} {classId offset : Int} {allowed force : Bool}

theorem Servants.getCMethod_eq_some {slot : Slot} (hx : s.objects c.object = some x) :
    k.getCMethod s c.object classId offset allowed force = some (servant, slot) ↔
      ∃ cache, x.Direct servant cache classId offset allowed force ∧
        k.slot servant (cache.getD classId.toNat 0) offset = slot ∧ slot ≠ .null := by
  unfold Servants.getCMethod POAObject.Direct
  rw [hx]
  dsimp only
  cases hsv : x.servant with
  | none => simp
  | some servant' =>
    dsimp only
    split
    · rename_i hg
      constructor
      · intro h
        cases h
      · rintro ⟨cache, ⟨-, hoff, hcid, hall, hforce, -⟩, -⟩
        rcases hg with h | h | h | h
        · omega
        · omega
        · rw [hall] at h
          cases h
        · rw [hforce] at h
          cases h
    · rename_i hg
      simp only [not_or, Bool.not_eq_false, Bool.not_eq_true] at hg
      cases hc : x.vepvmapCache with
      | none => simp
      | some cache =>
        dsimp only
        split
        · rename_i hsize
          constructor
          · intro h
            cases h
          · rintro ⟨cache', ⟨-, -, -, -, -, hcache, hlt⟩, -⟩
            cases hcache
            omega
        · rename_i hsize
          constructor
          · intro h
            split at h
            · cases h
            · rename_i slot' hne
              simp only [Option.some.injEq, Prod.mk.injEq] at h
              obtain ⟨rfl, hs⟩ := h
              refine ⟨cache, ⟨rfl, by omega, by omega, hg.2.2.1, hg.2.2.2, rfl, by omega⟩, hs, ?_⟩
              rw [← hs]
              exact hne
          · rintro ⟨cache', ⟨hsv', -, -, -, -, hcache, -⟩, hslot, hne⟩
            cases hcache
            cases hsv'
            rw [hslot]
            split
            · exact absurd rfl hne
            · rfl

/-- Behind the checks of the index. -/
theorem Servants.agrees_getCMethod {opname : Nat} (hx : s.objects c.object = some x)
    (hl : s.lock (k.world w) c.poa = .ok s₁) :
    k.Agrees w s c (match k.getCMethod s c.object classId offset allowed force with
      | none => .request opname
      | some (servant, .imp n) => .method servant n
      | some _ => .wild) ↔ k.Fits w s c x classId offset allowed force := by
  cases hg : k.getCMethod s c.object classId offset allowed force with
  | none =>
    simp only [Servants.Agrees, true_iff]
    intro servant cache hd
    by_contra hne
    rw [not_or] at hne
    have := (Servants.getCMethod_eq_some hx).mpr ⟨cache, hd, rfl, hne.1⟩
    rw [hg] at this
    cases this
  | some found =>
    obtain ⟨servant, slot⟩ := found
    obtain ⟨cache, hd, hslot, hnull⟩ := (Servants.getCMethod_eq_some hx).mp hg
    have hfits : k.Fits w s c x classId offset allowed force ↔
        (s.managers (w.manager x.poa)).state = .active ∧
          ∃ n, slot = .imp n ∧ k.implFinder servant c.opname = some n := by
      constructor
      · intro h
        rcases h servant cache hd with h0 | h
        · exact absurd (hslot.symm.trans h0) hnull
        · rwa [hslot] at h
      · intro h servant' cache' hd'
        cases hd.1.symm.trans hd'.1
        cases hd.2.2.2.2.2.1.symm.trans hd'.2.2.2.2.2.1
        rw [hslot]
        exact .inr h
    rw [hfits]
    cases slot with
    | wild => simp [Servants.Agrees]
    | null => exact absurd rfl hnull
    | imp n =>
      have himp : ((k.world w).classInfo servant).implements c.opname =
          (k.implFinder servant c.opname).isSome := rfl
      simp only [Servants.Agrees]
      rw [dispatches_iff hx hd.1 hl, himp]
      constructor
      · rintro ⟨⟨-, hact, -⟩, hfind⟩
        exact ⟨hact, n, rfl, hfind⟩
      · rintro ⟨hact, n', hn, hfind⟩
        cases hn
        exact ⟨⟨rfl, hact, by rw [hfind]; rfl⟩, hfind⟩

/-- The two ways agree exactly if the index is not one behind the last method, and the place that
a stub finds fits. -/
theorem agrees_iff (k : Servants) (w : World) (s : State) (c : Call) (x : POAObject)
    (methods : List Method) (index classId offset : Int) (skelImpl allowed force : Bool)
    (hx : s.objects c.object = some x) (hfree : s.lock (k.world w) c.poa ≠ .error .blocked) :
    k.Agrees w s c (k.cStubInvoke s c.object methods index classId offset skelImpl allowed force) ↔
      index ≠ methods.length ∧ (0 ≤ index → index < methods.length → skelImpl = true →
        k.Fits w s c x classId offset allowed force) := by
  have hlock : ∃ s₁, s.lock (k.world w) c.poa = .ok s₁ := by
    unfold State.lock at hfree ⊢
    split
    · exact ⟨_, rfl⟩
    · rename_i hts
      rw [if_neg hts] at hfree
      split
      · rename_i hlocked
        exact absurd (if_pos hlocked) hfree
      · exact ⟨_, rfl⟩
  obtain ⟨s₁, hl⟩ := hlock
  unfold Servants.cStubInvoke
  split
  · rename_i hout
    simp only [Servants.Agrees, true_iff]
    exact ⟨by omega, by omega⟩
  · rename_i hin
    simp only [not_or, not_lt, gt_iff_lt] at hin
    cases hm : methods[index.toNat]? with
    | none =>
      have hle := List.getElem?_eq_none_iff.mp hm
      simp only [Servants.Agrees, false_iff, not_and]
      intro hne
      omega
    | some m =>
      have hlt : index.toNat < methods.length := (List.getElem?_eq_some_iff.mp hm).1
      have hne : index ≠ methods.length := by omega
      dsimp only
      split
      · rename_i hskel
        have hfits : (0 ≤ index → index < methods.length → skelImpl = true →
            k.Fits w s c x classId offset allowed force) ↔
              k.Fits w s c x classId offset allowed force :=
          ⟨fun h => h hin.1 (by omega) hskel, fun h _ _ _ => h⟩
        rw [hfits, and_iff_right hne]
        exact Servants.agrees_getCMethod hx hl
      · rename_i hskel
        simp only [Servants.Agrees, true_iff]
        exact ⟨hne, fun _ _ hs => absurd hs hskel⟩

end

section
variable {k : Servants} {servant : Nat}

/-- The classes have been registered, and no table is longer than a `gshort` can say. -/
structure Skeleton.Registered (k : Skeleton) : Prop where
  parents : ∀ i ∈ k.parents, 0 < i.1.classId ∧ i.1.classId < k.own.1.classId
  distinct : (k.parents.map (·.1.classId)).Nodup
  small : ∀ i ∈ k.interfaces, i.2 < 2^16

/-- Places that are set, one after the other. -/
theorem getD_foldl_set {ps : List (Interface × Nat)} {map : List Nat} {id : Nat}
    (hnd : (ps.map (·.1.classId)).Nodup) (hid : id < map.length) :
    (ps.foldl (fun map i => map.set i.1.classId (vepvIdx i.2)) map).getD id 0 =
      match ps.find? (fun i => i.1.classId = id) with
      | some i => vepvIdx i.2
      | none => map.getD id 0 := by
  induction ps generalizing map with
  | nil => rfl
  | cons i ps ih =>
    rw [List.map_cons, List.nodup_cons] at hnd
    rw [List.foldl_cons, ih hnd.2 (by simpa using hid), List.find?_cons]
    by_cases he : i.1.classId = id
    · have hnone : ps.find? (fun i => i.1.classId = id) = none := by
        rw [List.find?_eq_none]
        intro j hj hji
        refine hnd.1 (List.mem_map.mpr ⟨j, hj, ?_⟩)
        rw [he]
        simpa using hji
      rw [hnone]
      simp [he, List.getD_eq_getElem?_getD, hid]
    · simp only [he, decide_false]
      cases ps.find? (fun i => i.1.classId = id) with
      | some j => rfl
      | none =>
        dsimp only
        rw [List.getD_eq_getElem?_getD, List.getElem?_set_ne he, List.getD_eq_getElem?_getD]

/-- The map of a registered class leads to the epvs of its interfaces. -/
theorem Skeleton.Registered.vepvmap {k : Skeleton} (h : k.Registered) {i : Interface × Nat}
    (hi : i ∈ k.interfaces) (hpos : 0 < i.1.classId) : k.vepvmap.getD i.1.classId 0 = i.2 := by
  have htake : k.parents.takeWhile (fun i => i.1.classId ≠ 0) = k.parents := by
    rw [List.takeWhile_eq_self_iff]
    intro j hj
    have := (h.parents j hj).1
    simp only [ne_eq, decide_not, Bool.not_eq_true', decide_eq_false_iff_not]
    omega
  have hsmall : vepvIdx i.2 = i.2 := Nat.mod_eq_of_lt (h.small i hi)
  have hle : i.1.classId ≤ k.own.1.classId := by
    rcases List.mem_cons.mp hi with rfl | hj
    · exact Nat.le_refl _
    · exact Nat.le_of_lt (h.parents i hj).2
  unfold Skeleton.vepvmap
  dsimp only
  rw [htake, getD_foldl_set h.distinct (by simp; omega)]
  rcases List.mem_cons.mp hi with rfl | hj
  · have hnone : k.parents.find? (fun i => i.1.classId = k.own.1.classId) = none := by
      rw [List.find?_eq_none]
      intro j hj hji
      have := (h.parents j hj).2
      simp only [decide_eq_true_eq] at hji
      omega
    rw [hnone]
    simp [List.getD_eq_getElem?_getD, hsmall]
  · cases hf : k.parents.find? (fun j => j.1.classId = i.1.classId) with
    | none => exact absurd (by simp) (List.find?_eq_none.mp hf i hj)
    | some j =>
      have hjm := List.mem_of_find?_eq_some hf
      have hji : j.1.classId = i.1.classId := by simpa using List.find?_some hf
      have : j = i := List.inj_on_of_nodup_map h.distinct hjm hj hji
      rw [this]
      exact hsmall

/-- In IDL no name stands for two operations of one interface and its parents. -/
def Skeleton.NamesDistinct (k : Skeleton) : Prop :=
  ∀ i ∈ k.interfaces, ∀ j ∈ k.interfaces, ∀ m ∈ i.1.methods, ∀ m' ∈ j.1.methods,
    m.name = m'.name → i = j ∧ m = m'

/-- The finder gets to the place of the method. -/
theorem Servants.implFinder_eq {i : Interface × Nat} {m : Method} {n : Nat}
    (hnames : (k.skeleton servant).NamesDistinct) (hi : i ∈ (k.skeleton servant).interfaces)
    (hm : m ∈ i.1.methods) (hslot : k.slot servant i.2 m.offset = .imp n) :
    k.implFinder servant m.name = some n := by
  unfold Servants.implFinder
  have hfind : ∀ j ∈ (k.skeleton servant).interfaces, ∀ m',
      j.1.methods.find? (fun m' => m'.name = m.name) = some m' → j = i ∧ m' = m := by
    intro j hj m' hm'
    have hname : m'.name = m.name := by simpa using List.find?_some hm'
    exact hnames j hj i hi m' (List.mem_of_find?_eq_some hm') m hm hname
  cases hres : (k.skeleton servant).interfaces.findSome? (fun i =>
      (i.1.methods.find? fun m' => m'.name = m.name).bind fun m =>
        match k.slot servant i.2 m.offset with
        | .imp n => some n
        | _ => none) with
  | none =>
    have hi' := List.findSome?_eq_none_iff.mp hres i hi
    cases hf : i.1.methods.find? (fun m' => m'.name = m.name) with
    | none => exact absurd (by simp) (List.find?_eq_none.mp hf m hm)
    | some m' =>
      obtain ⟨-, rfl⟩ := hfind i hi m' hf
      simp [hf, hslot] at hi'
  | some n' =>
    obtain ⟨j, hj, hjn⟩ := List.exists_of_findSome?_eq_some hres
    obtain ⟨m', hm', hmn⟩ := Option.bind_eq_some_iff.mp hjn
    obtain ⟨rfl, rfl⟩ := hfind j hj m' hm'
    rw [hslot] at hmn
    simpa using hmn.symm

end

/-- Servants of one class with one method. -/
def oneMethod : Servants where
  skeleton := fun _ => ⟨(⟨1, [⟨3, 1⟩]⟩, 1), []⟩
  vepv := fun _ => [some [none, none], some [none, some 42]]
  oneway := fun _ _ => false
  finalizes := fun _ => false

/-- The manager of a new POA holds requests. -/
def activatedWhileHolding : List Event :=
  [.call 0 (.createPOA 0), .call 0 (.servantToReference 0 (some 7) [1, 2, 3, 4])]

/-- The object there. -/
def activatedObject : POAObject where
  poa := 0
  objectId := some [1, 0, 0, 0, 1, 2, 3, 4]
  servant := some 7
  vepvmapCache := some [2, 1]
  life := ⟨false, false, false, false, false⟩
  useCnt := 0
  refs := 2
  objref := some 1

theorem agrees_activatedObject :
    oneMethod.Agrees loneWorld
        (State.run (oneMethod.world loneWorld) (activatedWhileHolding ++ [.call 0 (.managerActivate 0)]))
        ⟨0, 0, 3, false, 0⟩ (oneMethod.cStubInvoke
          (State.run (oneMethod.world loneWorld)
            (activatedWhileHolding ++ [.call 0 (.managerActivate 0)]))
          0 [⟨3, 1⟩] 0 1 1 true true false) := by
  refine (agrees_iff oneMethod loneWorld (State.run (oneMethod.world loneWorld)
    (activatedWhileHolding ++ [.call 0 (.managerActivate 0)])) ⟨0, 0, 3, false, 0⟩ activatedObject
    [⟨3, 1⟩] 0 1 1 true true false (by decide) (by simp [State.lock, Servants.world,
      loneWorld])).mpr ⟨by decide, fun _ _ _ => ?_⟩
  rintro servant cache ⟨hsv, -, -, -, -, hcache, -⟩
  cases hsv
  cases hcache
  exact .inr ⟨by decide, 42, by decide, by decide⟩

/-- The stub calls the method while the manager holds requests. -/
theorem not_agrees_activatedWhileHolding :
    ¬ oneMethod.Agrees loneWorld
        (State.run (oneMethod.world loneWorld) activatedWhileHolding) ⟨0, 0, 3, false, 0⟩
        (oneMethod.cStubInvoke (State.run (oneMethod.world loneWorld) activatedWhileHolding)
          0 [⟨3, 1⟩] 0 1 1 true true false) := by
  have hstub : oneMethod.cStubInvoke (State.run (oneMethod.world loneWorld) activatedWhileHolding)
      0 [⟨3, 1⟩] 0 1 1 true true false = .method 7 42 := by decide
  have hx : (State.run (oneMethod.world loneWorld) activatedWhileHolding).objects 0 =
      some activatedObject := by decide
  have hlock : (State.run (oneMethod.world loneWorld) activatedWhileHolding).lock
      (oneMethod.world loneWorld) 0 =
        .ok (State.run (oneMethod.world loneWorld) activatedWhileHolding) := by
    simp [State.lock, Servants.world, loneWorld]
  have hhold : ((State.run (oneMethod.world loneWorld) activatedWhileHolding).managers 0).state =
      .holding := by decide
  rw [hstub]
  rintro ⟨hd, -⟩
  obtain ⟨-, hact, -⟩ := (dispatches_iff (c := ⟨0, 0, 3, false, 0⟩) hx rfl hlock).mp hd
  exact absurd (hhold.symm.trans hact) (by decide)

end ORBit2.PortableServer
