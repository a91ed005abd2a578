import ORBit2.IdlTypes

/-! Interfaces in the syntax tree of an IDL file, the operations that stand for their
attributes, the walk through their parents, and the lists that the IDL compiler builds of
them. -/

set_option autoImplicit false

namespace ORBit2

def isLetter (c : UInt8) : Bool := (65 ≤ c && c ≤ 90) || (97 ≤ c && c ≤ 122)

/-- An identifier of IDL: a letter, and then letters, digits and underscores. -/
def isIdentifier : List UInt8 → Bool
  | [] => false
  | c :: str => isLetter c && str.all fun c => isLetter c || (48 ≤ c && c ≤ 57) || c == 95

/-- `IDL_param_attr`. -/
inductive ParamAttr where
  | paramIn | paramOut | paramInout
  deriving DecidableEq, Repr

/-- `IDLN_PARAM_DCL`. -/
structure ParamDcl where
  attr : ParamAttr
  typeSpec : IdlType
  simpleDeclarator : List UInt8

/-- `IDLN_OP_DCL`; the type of a result `void` is NULL. -/
structure OpDcl where
  oneway : Bool
  typeSpec : Option IdlType
  ident : List UInt8
  parameterDcls : List ParamDcl
  raisesExpr : List IdlType
  contextExpr : List (List UInt8)

/-- `IDLN_ATTR_DCL`. -/
structure AttrDcl where
  readonly : Bool
  paramTypeSpec : IdlType
  simpleDeclarations : List {str : List UInt8 // isIdentifier str = true}

/-- What stands in the body of an interface; `type` is a definition of types. -/
inductive Export where
  | op (op : OpDcl) (identifier : isIdentifier op.ident = true)
  | attr (attr : AttrDcl)
  | type (types : List IdlType)

/-- `IDLN_INTERFACE`, at its place in memory. -/
inductive IdlInterface where
  | mk (place : Nat) (ident : Ident) (inheritanceSpec : List IdlInterface) (body : List Export)

namespace IdlInterface

def place : IdlInterface → Nat
  | .mk place _ _ _ => place

def ident : IdlInterface → Ident
  | .mk _ ident _ _ => ident

def inheritanceSpec : IdlInterface → List IdlInterface
  | .mk _ _ inheritanceSpec _ => inheritanceSpec

def body : IdlInterface → List Export
  | .mk _ _ _ body => body

end IdlInterface

/-- `IDLN_MODULE` and what stands in it. -/
inductive Definition where
  | module (definitionList : List Definition)
  | interface (intf : IdlInterface)
  | type (types : List IdlType)

/-! ### Attributes -/

/-- `orbit_idl_attr_fake_ops`, for one of the names of an attribute. -/
def attrFakeOps (attr : AttrDcl) (name : List UInt8) : List OpDcl :=
  let op1 : OpDcl := ⟨false, some attr.paramTypeSpec, ascii "_get_" ++ name, [], [], []⟩
  let op2 : OpDcl := ⟨false, none, ascii "_set_" ++ name,
    [⟨.paramIn, attr.paramTypeSpec, ascii "value"⟩], [], []⟩
  if attr.readonly then [op1] else [op1, op2]

/-- The operations that an export is or stands for. -/
def Export.operations : Export → List OpDcl
  | .op dcl _ => [dcl]
  | .attr dcl => dcl.simpleDeclarations.flatMap fun name => attrFakeOps dcl name.1
  | .type _ => []

/-- The operations of an interface, without those of its parents. -/
def IdlInterface.operations (intf : IdlInterface) : List OpDcl := intf.body.flatMap Export.operations

/-! ### The parents of an interface -/

namespace IdlInterface

mutual

/-- `IDL_tree_traverse_helper`: the nodes that have been visited, and those that the function
is called with. -/
def traverseHelper : IdlInterface → (visited : List Nat) → List Nat × List IdlInterface
  | .mk place ident inheritanceSpec body, visited =>
      if place ∈ visited then (visited, [])
      else
        let (visited, nodes) := traverseParentsOf inheritanceSpec (place :: visited)
        (visited, nodes ++ [.mk place ident inheritanceSpec body])

def traverseParentsOf : List IdlInterface → (visited : List Nat) → List Nat × List IdlInterface
  | [], visited => (visited, [])
  | intf :: intfs, visited =>
      let (visited, nodes) := traverseHelper intf visited
      let (visited, nodes') := traverseParentsOf intfs visited
      (visited, nodes ++ nodes')

end

/-- `IDL_tree_traverse_parents`. -/
def traverseParents (intf : IdlInterface) : List IdlInterface := (intf.traverseHelper []).2

mutual

/-- An interface and all it inherits from, once for each way. -/
def nodes : IdlInterface → List IdlInterface
  | .mk place ident inheritanceSpec body =>
      .mk place ident inheritanceSpec body :: allNodes inheritanceSpec

def allNodes : List IdlInterface → List IdlInterface
  | [] => []
  | intf :: intfs => nodes intf ++ allNodes intfs

end

/-- There is one interface at each place. -/
def Consistent (intf : IdlInterface) : Prop :=
  ∀ i ∈ intf.nodes, ∀ j ∈ intf.nodes, i.place = j.place → i = j

theorem self_mem_nodes (intf : IdlInterface) : intf ∈ intf.nodes := by
  cases intf
  exact List.mem_cons_self

/-! ### Each parent once -/

section
variable {table : Nat → IdlInterface}

/-- Of an interface that has been visited, and not only entered, all the parents have been
visited. -/
def Closed (table : Nat → IdlInterface) (pending visited : List Nat) : Prop :=
  ∀ place ∈ visited, place ∈ pending ∨ ∀ j ∈ (table place).nodes, j.place ∈ visited

/-- What a walk does that starts with some nodes already visited. -/
structure Walked (table : Nat → IdlInterface) (pending visited : List Nat) (all : List IdlInterface)
    (r : List Nat × List IdlInterface) : Prop where
  closed : Closed table pending r.1
  reached : ∀ j ∈ all, j.place ∈ r.1
  seen : ∀ place, place ∈ r.1 ↔ place ∈ visited ∨ place ∈ r.2.map IdlInterface.place
  fresh : ∀ place ∈ r.2.map IdlInterface.place, place ∉ visited
  nodup : (r.2.map IdlInterface.place).Nodup
  inside : ∀ j ∈ r.2, j ∈ all

theorem Walked.append {pending visited : List Nat} {all all' : List IdlInterface}
    {r r' : List Nat × List IdlInterface} (h : Walked table pending visited all r)
    (h' : Walked table pending r.1 all' r') :
    Walked table pending visited (all ++ all') (r'.1, r.2 ++ r'.2) := by
  refine ⟨h'.closed, ?_, ?_, ?_, ?_, ?_⟩
  · intro j hj
    rcases List.mem_append.1 hj with hj | hj
    · exact (h'.seen _).2 (.inl (h.reached j hj))
    · exact h'.reached j hj
  · intro place
    rw [h'.seen, h.seen, List.map_append, List.mem_append, or_assoc]
  · intro place hp hv
    rw [List.map_append] at hp
    rcases List.mem_append.1 hp with hp | hp
    · exact h.fresh place hp hv
    · exact h'.fresh place hp ((h.seen place).2 (.inl hv))
  · rw [List.map_append]
    refine List.nodup_append.2 ⟨h.nodup, h'.nodup, ?_⟩
    rintro place hp _ hp' rfl
    exact h'.fresh place hp' ((h.seen place).2 (.inr hp))
  · intro j hj
    rcases List.mem_append.1 hj with hj | hj
    · exact List.mem_append_left _ (h.inside j hj)
    · exact List.mem_append_right _ (h'.inside j hj)

mutual

/-- A walk comes to every node there is, and to each once. The nodes that are only entered
are larger than those to come, so none of them is met again. -/
theorem traverseHelper_walked (table : Nat → IdlInterface) : (intf : IdlInterface) →
    ∀ pending visited : List Nat,
    (∀ j ∈ intf.nodes, table j.place = j) → (∀ p ∈ pending, sizeOf intf < sizeOf (table p)) →
    Closed table pending visited →
    Walked table pending visited intf.nodes (intf.traverseHelper visited)
  | .mk place ident inheritanceSpec body => by
    intro pending visited ht hp hc
    have hself := ht _ (self_mem_nodes _)
    rw [traverseHelper]
    by_cases hv : place ∈ visited
    · rw [if_pos hv]
      refine ⟨hc, ?_, by simp, by simp, List.nodup_nil, by simp⟩
      rcases hc place hv with hpend | hall
      · have hlt := hp place hpend
        simp only [IdlInterface.place] at hself
        rw [hself] at hlt
        exact absurd hlt (Nat.lt_irrefl _)
      · simp only [IdlInterface.place] at hself
        rwa [hself] at hall
    · rw [if_neg hv]
      have hw := traverseParentsOf_walked table inheritanceSpec (place :: pending)
        (place :: visited) (fun j hj => ht j (List.mem_cons_of_mem _ hj)) (by
          intro p hm
          have hlt : sizeOf inheritanceSpec < sizeOf (IdlInterface.mk place ident inheritanceSpec body) := by
            rw [IdlInterface.mk.sizeOf_spec]
            omega
          rcases List.mem_cons.1 hm with rfl | hm
          · simp only [IdlInterface.place] at hself
            rwa [hself]
          · exact hlt.trans (hp p hm)) (by
          intro p hm
          rcases List.mem_cons.1 hm with rfl | hm
          · exact .inl List.mem_cons_self
          · rcases hc p hm with hm | hm
            · exact .inl (List.mem_cons_of_mem _ hm)
            · exact .inr fun j hj => List.mem_cons_of_mem _ (hm j hj))
      generalize traverseParentsOf inheritanceSpec (place :: visited) = r at hw
      have hreach : ∀ j ∈ (IdlInterface.mk place ident inheritanceSpec body).nodes, j.place ∈ r.1 := by
        intro j hj
        rw [nodes] at hj
        rcases List.mem_cons.1 hj with rfl | hj
        · exact (hw.seen place).2 (.inl List.mem_cons_self)
        · exact hw.reached j hj
      refine ⟨?_, hreach, ?_, ?_, ?_, ?_⟩
      · intro p hm
        rcases hw.closed p hm with hm | hm
        · rcases List.mem_cons.1 hm with rfl | hm
          · simp only [IdlInterface.place] at hself
            rw [hself]
            exact .inr hreach
          · exact .inl hm
        · exact .inr hm
      · intro p
        rw [hw.seen, List.map_append, List.mem_append, List.mem_cons]
        simp only [List.map_cons, List.map_nil, List.mem_singleton, IdlInterface.place]
        tauto
      · intro p hm hpv
        rw [List.map_append, List.mem_append] at hm
        rcases hm with hm | hm
        · exact hw.fresh p hm (List.mem_cons_of_mem _ hpv)
        · rw [List.map_singleton, List.mem_singleton] at hm
          rw [hm] at hpv
          exact hv hpv
      · rw [List.map_append]
        refine List.nodup_append.2 ⟨hw.nodup, by simp, ?_⟩
        rintro p hm _ hm' rfl
        rw [List.map_singleton, List.mem_singleton] at hm'
        rw [hm'] at hm
        exact hw.fresh _ hm List.mem_cons_self
      · intro j hm
        rw [nodes]
        rcases List.mem_append.1 hm with hm | hm
        · exact List.mem_cons_of_mem _ (hw.inside j hm)
        · rw [List.mem_singleton.1 hm]
          exact List.mem_cons_self

theorem traverseParentsOf_walked (table : Nat → IdlInterface) : (intfs : List IdlInterface) →
    ∀ pending visited : List Nat,
    (∀ j ∈ allNodes intfs, table j.place = j) → (∀ p ∈ pending, sizeOf intfs < sizeOf (table p)) →
    Closed table pending visited →
    Walked table pending visited (allNodes intfs) (traverseParentsOf intfs visited)
  | [] => by
    intro pending visited _ _ hc
    exact ⟨hc, by simp [allNodes], by simp [traverseParentsOf], by simp [traverseParentsOf],
      List.nodup_nil, by simp [traverseParentsOf]⟩
  | intf :: intfs => by
    intro pending visited ht hp hc
    simp only [List.cons.sizeOf_spec] at hp
    have hw := traverseHelper_walked table intf pending visited
      (fun j hj => ht j (List.mem_append_left _ hj)) (fun p hm => by
        have hlt := hp p hm
        omega) hc
    have hw' := traverseParentsOf_walked table intfs pending _ (fun j hj => ht j (List.mem_append_right _ hj))
      (fun p hm => by
        have hlt := hp p hm
        omega) hw.closed
    exact hw.append hw'

end

/-- The walk through the parents of an interface meets each of them once, whatever diamonds
there are. -/
theorem traverseParents_spec {intf : IdlInterface} (h : intf.Consistent) :
    (intf.traverseParents.map place).Nodup ∧
      ∀ i, i ∈ intf.traverseParents ↔ i ∈ intf.nodes := by
  let table : Nat → IdlInterface := fun p => (intf.nodes.find? (·.place == p)).getD intf
  have ht : ∀ j ∈ intf.nodes, table j.place = j := by
    intro j hj
    change (intf.nodes.find? (·.place == j.place)).getD intf = j
    cases hf : intf.nodes.find? (·.place == j.place) with
    | none =>
      have hn := List.find?_eq_none.1 hf j hj
      simp at hn
    | some i =>
      have hp := List.find?_some hf
      exact h i (List.mem_of_find?_eq_some hf) j hj (by simpa using hp)
  have hw := traverseHelper_walked table intf [] [] ht (by simp) (by simp [Closed])
  refine ⟨hw.nodup, fun i => ⟨hw.inside i, ?_⟩⟩
  intro hi
  have hm := (hw.seen i.place).1 (hw.reached i hi)
  obtain ⟨j, hj, hp⟩ := List.mem_map.1 (hm.resolve_left (by simp))
  rw [← h j (hw.inside j hj) i hi hp]
  exact hj

end

end IdlInterface

end ORBit2
