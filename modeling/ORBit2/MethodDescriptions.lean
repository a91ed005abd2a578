import ORBit2.GeneratedDispatch
import ORBit2.ImoduleTypeCodes

/-! The descriptions of interfaces and their methods: the `ORBit_IInterface` data that the IDL
compiler emits, and what the run-time IDL module makes of the same syntax tree. -/

set_option autoImplicit false

namespace ORBit2
open Traversal
open AlignedTypeCode (plain staticTc createInterfaceTc)

/-! ### orbit-interface.idl -/

structure ORBitIArg where
  tc : CTypeCode
  flags : Nat
  name : List UInt8

structure ORBitIMethod where
  arguments : List ORBitIArg
  contexts : List (List UInt8)
  exceptions : List CTypeCode
  ret : CTypeCode
  name : List UInt8
  nameLen : Nat
  flags : Nat

structure ORBitIInterface where
  tc : CTypeCode
  methods : List ORBitIMethod
  baseInterfaces : List (List UInt8)

def commonFixedSize : Nat := 1
def argIn : Nat := 32
def argOut : Nat := 64
def argInout : Nat := 128
def method1Way : Nat := 32
def methodHasContext : Nat := 256

/-- `TC_void`. -/
def tcVoid : CTypeCode := (staticTc .void "void").plain

/-! ### The IDL compiler -/

mutual

/-- `orbit_cbe_type_is_fixed_length`. -/
def cbeTypeIsFixedLength : IdlType → Bool
  | .float _ | .integer _ _ | .enum _ _ | .char | .wideChar | .octet | .boolean => true
  | .sequence _ _ | .recursiveSequence _ _ | .string _ | .wideString _ | .object | .interface _ _
  | .any | .typeCode => false
  | .union _ _ switchBody => cbeArmsAreFixedLength switchBody
  | .except _ memberList | .struct _ memberList => cbeMembersAreFixedLength memberList
  | .typedef _ typeSpec => cbeTypeIsFixedLength typeSpec

def cbeMembersAreFixedLength : List Member → Bool
  | [] => true
  | .mk typeSpec _ _ :: members => cbeTypeIsFixedLength typeSpec && cbeMembersAreFixedLength members

def cbeArmsAreFixedLength : List CaseStmt → Bool
  | [] => true
  | .mk _ _ typeSpec _ :: body => cbeTypeIsFixedLength typeSpec && cbeArmsAreFixedLength body

end

section Compiler
variable (emitted : List UInt8 → Nat) (enclosing : Ident → CTypeCode)

/-- An element of `cc_output_iargs`. -/
def ccOutputIarg (parm : ParamDcl) : ORBitIArg where
  tc := staticTypeCode emitted enclosing parm.typeSpec
  flags :=
    (match parm.attr with
      | .paramIn => argIn
      | .paramOut => argOut
      | .paramInout => argInout) |||
    (if cbeTypeIsFixedLength parm.typeSpec then commonFixedSize else 0)
  name := parm.simpleDeclarator

/-- `ret` in `cc_output_method`. -/
def ccOutputRet : Option IdlType → CTypeCode
  | some opTypeSpec => staticTypeCode emitted enclosing opTypeSpec
  | none => tcVoid

/-- `cc_output_method`, with what `cc_output_method_bits` puts before it. -/
def ccOutputMethod (tree : OpDcl) : ORBitIMethod where
  arguments := tree.parameterDcls.map (ccOutputIarg emitted enclosing)
  contexts := tree.contextExpr
  exceptions := tree.raisesExpr.map (staticTypeCode emitted enclosing)
  ret := ccOutputRet emitted enclosing tree.typeSpec
  name := tree.ident
  nameLen := tree.ident.length
  flags :=
    0 ||| (if tree.oneway then method1Way else 0) |||
      (if tree.typeSpec.any cbeTypeIsFixedLength then commonFixedSize else 0) |||
      (if tree.contextExpr ≠ [] then methodHasContext else 0)

/-- `cc_output_base_itypes` for each node of the walk. -/
def ccOutputBaseItypes (curNode : IdlInterface) : List IdlInterface → List (List UInt8)
  | [] => []
  | node :: nodes =>
      if curNode.place = node.place then ccOutputBaseItypes curNode nodes
      else node.ident.repoId :: ccOutputBaseItypes curNode nodes

/-- `cc_output_itypes` for one interface. -/
def ccOutputItype (i : BuiltInterface) : ORBitIInterface where
  tc := staticTypeCode emitted enclosing (.interface i.tree.ident ⟨false, false⟩)
  methods := i.methods.map (ccOutputMethod emitted enclosing)
  baseInterfaces :=
    ccOutputBaseItypes i.tree i.tree.traverseParents ++ [ascii "IDL:omg.org/CORBA/Object:1.0"]

/-- The data that the compiler emits for a tree. -/
def emittedInterfaces (tree : Definition) : List ORBitIInterface :=
  (buildInterfaces [] tree).map (ccOutputItype emitted enclosing)

end Compiler

/-! ### The run-time IDL module -/

mutual

/-- `ORBit_imodule_type_is_fixed_length`. -/
def imoduleTypeIsFixedLength : IdlType → Bool
  | .float _ | .integer _ _ | .enum _ _ | .char | .wideChar | .octet | .boolean => true
  | .sequence _ _ | .recursiveSequence _ _ | .string _ | .wideString _ | .object | .interface _ _
  | .any | .typeCode => false
  | .union _ _ switchBody => imoduleArmsAreFixedLength switchBody
  | .except _ memberList | .struct _ memberList => imoduleMembersAreFixedLength memberList
  | .typedef _ typeSpec => imoduleTypeIsFixedLength typeSpec

def imoduleMembersAreFixedLength : List Member → Bool
  | [] => true
  | .mk typeSpec _ _ :: members =>
      imoduleTypeIsFixedLength typeSpec && imoduleMembersAreFixedLength members

def imoduleArmsAreFixedLength : List CaseStmt → Bool
  | [] => true
  | .mk _ _ typeSpec _ :: body => imoduleTypeIsFixedLength typeSpec && imoduleArmsAreFixedLength body

end

namespace IdlInterface

mutual

/-- `ORBit_imodule_traverse_helper`: the nodes that have been visited, and those that the
callback gets. -/
def imoduleTraverseHelper : IdlInterface → (visited : List Nat) → List Nat × List IdlInterface
  | .mk place ident inheritanceSpec body, visited =>
      if place ∈ visited then (visited, [])
      else
        let (visited, nodes) := imoduleTraverseAll inheritanceSpec (place :: visited)
        (visited, nodes ++ [.mk place ident inheritanceSpec body])

def imoduleTraverseAll : List IdlInterface → (visited : List Nat) → List Nat × List IdlInterface
  | [], visited => (visited, [])
  | intf :: intfs, visited =>
      let (visited, nodes) := imoduleTraverseHelper intf visited
      let (visited, nodes') := imoduleTraverseAll intfs visited
      (visited, nodes ++ nodes')

end

/-- `ORBit_imodule_traverse_parents`. -/
def imoduleTraverseParents (tree : IdlInterface) : List IdlInterface :=
  (tree.imoduleTraverseHelper []).2

end IdlInterface

/-- `Interface` of orbit-imodule.c. -/
structure ImoduleInterface where
  tree : IdlInterface
  tc : AlignedTypeCode
  methods : List OpDcl

/-- `ORBit_imodule_fake_attribute_ops`. -/
def fakeAttributeOps (attr : AttrDcl) (ident : List UInt8) : OpDcl × Option OpDcl :=
  let getOp : OpDcl := ⟨false, some attr.paramTypeSpec, ascii "_get_" ++ ident, [], [], []⟩
  if attr.readonly then (getOp, none)
  else
    (getOp, some ⟨false, none, ascii "_set_" ++ ident,
      [⟨.paramIn, attr.paramTypeSpec, ascii "value"⟩], [], []⟩)

/-- `IDLN_OP_DCL` in `ORBit_iinterface_build_interfaces`. -/
def addMethod : List ImoduleInterface → OpDcl → List ImoduleInterface
  | [], _ => []
  | [i], tree => [{ i with methods := i.methods ++ [tree] }]
  | i :: list, tree => i :: addMethod list tree

/-- The operations of one name of an attribute. -/
def addAttribute (tree : AttrDcl) (list : List ImoduleInterface) (name : List UInt8) :
    List ImoduleInterface :=
  match fakeAttributeOps tree name with
  | (getOp, some setOp) => addMethod (addMethod list getOp) setOp
  | (getOp, none) => addMethod list getOp

section Imodule
variable (nodeText : Ident → List UInt8)

/-- The types are loaded into the table. -/
def loadTypes (types : List IdlType) : Option Unit := do
  let _ ← types.mapM (imoduleTypeCode nodeText)
  some ()

/-- `ORBit_iinterface_build_interfaces` in the body of an interface. -/
def buildExports (list : List ImoduleInterface) : List Export → Option (List ImoduleInterface)
  | [] => some list
  | .op tree _ :: exports => buildExports (addMethod list tree) exports
  | .attr tree :: exports =>
      buildExports ((tree.simpleDeclarations.map Subtype.val).foldl (addAttribute tree) list) exports
  | .type types :: exports => do
      loadTypes nodeText types
      buildExports list exports

mutual

/-- `ORBit_iinterface_build_interfaces`; `none` is an assertion. -/
def iinterfaceBuildInterfaces (list : List ImoduleInterface) :
    Definition → Option (List ImoduleInterface)
  | .module definitionList => iinterfaceBuildList list definitionList
  | .interface intf =>
      buildExports nodeText
        (list ++ [⟨intf, createInterfaceTc intf.ident.repoId intf.ident.str, []⟩]) intf.body
  | .type types => do
      loadTypes nodeText types
      some list

def iinterfaceBuildList (list : List ImoduleInterface) :
    List Definition → Option (List ImoduleInterface)
  | [] => some list
  | tree :: trees => do
      let list ← iinterfaceBuildInterfaces list tree
      iinterfaceBuildList list trees

end

/-- An element of `ORBit_iinterface_fill_iargs`. -/
def fillIarg (parm : ParamDcl) : Option ORBitIArg := do
  let tc ← imoduleTypeCode nodeText parm.typeSpec
  let flags :=
    match parm.attr with
    | .paramIn => argIn
    | .paramOut => argOut
    | .paramInout => argInout
  some ⟨tc.plain, if imoduleTypeIsFixedLength parm.typeSpec then flags ||| commonFixedSize else flags,
    parm.simpleDeclarator⟩

/-- `ORBit_iinterface_fill_exceptinfo`. -/
def fillExceptinfo (raisesExpr : List IdlType) : Option (List CTypeCode) :=
  raisesExpr.mapM fun type => (imoduleTypeCode nodeText type).map plain

/-- `ret` in `ORBit_iinterface_fill_method`. -/
def fillRet : Option IdlType → Option CTypeCode
  | some opTypeSpec => (imoduleTypeCode nodeText opTypeSpec).map plain
  | none => some tcVoid

/-- `ORBit_iinterface_fill_method`. -/
def fillMethod (tree : OpDcl) : Option ORBitIMethod := do
  let arguments ← tree.parameterDcls.mapM (fillIarg nodeText)
  let exceptions ← fillExceptinfo nodeText tree.raisesExpr
  let ret ← fillRet nodeText tree.typeSpec
  let flags := 0
  let flags := if tree.oneway then flags ||| method1Way else flags
  let flags := if tree.typeSpec.any imoduleTypeIsFixedLength then flags ||| commonFixedSize else flags
  let flags := if tree.contextExpr ≠ [] then flags ||| methodHasContext else flags
  some ⟨arguments, tree.contextExpr, exceptions, ret, tree.ident, tree.ident.length, flags⟩

/-- `ORBit_iinterface_fill_base_itypes` for each node of the walk. -/
def fillBaseItypes (curNode : IdlInterface) : List IdlInterface → List (List UInt8)
  | [] => []
  | node :: nodes =>
      if curNode.place = node.place then fillBaseItypes curNode nodes
      else node.ident.repoId :: fillBaseItypes curNode nodes

/-- `ORBit_iinterface_from_interface`. -/
def iinterfaceFromInterface (iface : ImoduleInterface) : Option ORBitIInterface := do
  let methods ← iface.methods.mapM (fillMethod nodeText)
  some ⟨iface.tc.plain, methods,
    fillBaseItypes iface.tree iface.tree.imoduleTraverseParents ++ [ascii "IDL:CORBA/Object:1.0"]⟩

/-- `ORBit_iinterfaces_from_tree`. -/
def iinterfacesFromTree (tree : Definition) : Option (List ORBitIInterface) := do
  let list ← iinterfaceBuildInterfaces nodeText [] tree
  list.mapM (iinterfaceFromInterface nodeText)

end Imodule

/-! ### Agreement -/

/-- The two descriptions of an argument are equal. -/
structure ORBitIArg.Same (a b : ORBitIArg) : Prop where
  tc : TypeCodesAgree a.tc b.tc
  flags : a.flags = b.flags
  name : a.name = b.name

structure ORBitIMethod.Same (a b : ORBitIMethod) : Prop where
  arguments : List.Forall₂ ORBitIArg.Same a.arguments b.arguments
  contexts : a.contexts = b.contexts
  exceptions : List.Forall₂ TypeCodesAgree a.exceptions b.exceptions
  ret : TypeCodesAgree a.ret b.ret
  name : a.name = b.name
  nameLen : a.nameLen = b.nameLen
  flags : a.flags = b.flags

structure ORBitIInterface.Same (a b : ORBitIInterface) : Prop where
  tc : TypeCodesAgree a.tc b.tc
  methods : List.Forall₂ ORBitIMethod.Same a.methods b.methods
  baseInterfaces : a.baseInterfaces = b.baseInterfaces

/-- The two descriptions of an interface are equal but for the last of the repository ids. -/
structure ORBitIInterface.SameButObject (a b : ORBitIInterface) : Prop where
  tc : TypeCodesAgree a.tc b.tc
  methods : List.Forall₂ ORBitIMethod.Same a.methods b.methods
  baseInterfaces : a.baseInterfaces.dropLast = b.baseInterfaces.dropLast
  object : a.baseInterfaces.getLast? = some (ascii "IDL:omg.org/CORBA/Object:1.0")
  object' : b.baseInterfaces.getLast? = some (ascii "IDL:CORBA/Object:1.0")

/-- The types in the declaration of an operation. -/
def OpDcl.types (op : OpDcl) : List IdlType :=
  op.typeSpec.toList ++ op.parameterDcls.map ParamDcl.typeSpec ++ op.raisesExpr

/-! ### The two translators, function by function -/

mutual

theorem imoduleTypeIsFixedLength_eq : (type : IdlType) →
    imoduleTypeIsFixedLength type = cbeTypeIsFixedLength type
  | .float _ | .integer _ _ | .enum _ _ | .char | .wideChar | .octet | .boolean => by
    rw [imoduleTypeIsFixedLength, cbeTypeIsFixedLength]
  | .sequence _ _ | .recursiveSequence _ _ | .string _ | .wideString _ | .object | .interface _ _
  | .any | .typeCode => by
    rw [imoduleTypeIsFixedLength, cbeTypeIsFixedLength]
  | .union _ _ switchBody => by
    rw [imoduleTypeIsFixedLength, cbeTypeIsFixedLength, imoduleArmsAreFixedLength_eq switchBody]
  | .except _ memberList | .struct _ memberList => by
    rw [imoduleTypeIsFixedLength, cbeTypeIsFixedLength, imoduleMembersAreFixedLength_eq memberList]
  | .typedef _ typeSpec => by
    rw [imoduleTypeIsFixedLength, cbeTypeIsFixedLength, imoduleTypeIsFixedLength_eq typeSpec]

theorem imoduleMembersAreFixedLength_eq : (members : List Member) →
    imoduleMembersAreFixedLength members = cbeMembersAreFixedLength members
  | [] => by rw [imoduleMembersAreFixedLength, cbeMembersAreFixedLength]
  | .mk typeSpec _ _ :: members => by
    rw [imoduleMembersAreFixedLength, cbeMembersAreFixedLength,
      imoduleTypeIsFixedLength_eq typeSpec, imoduleMembersAreFixedLength_eq members]

theorem imoduleArmsAreFixedLength_eq : (body : List CaseStmt) →
    imoduleArmsAreFixedLength body = cbeArmsAreFixedLength body
  | [] => by rw [imoduleArmsAreFixedLength, cbeArmsAreFixedLength]
  | .mk _ _ typeSpec _ :: body => by
    rw [imoduleArmsAreFixedLength, cbeArmsAreFixedLength,
      imoduleTypeIsFixedLength_eq typeSpec, imoduleArmsAreFixedLength_eq body]

end

mutual

theorem IdlInterface.imoduleTraverseHelper_eq : (intf : IdlInterface) → (visited : List Nat) →
    intf.imoduleTraverseHelper visited = intf.traverseHelper visited
  | .mk place ident inheritanceSpec body, visited => by
    rw [imoduleTraverseHelper, traverseHelper, imoduleTraverseAll_eq inheritanceSpec]

theorem IdlInterface.imoduleTraverseAll_eq : (intfs : List IdlInterface) → (visited : List Nat) →
    imoduleTraverseAll intfs visited = traverseParentsOf intfs visited
  | [], visited => by rw [imoduleTraverseAll, traverseParentsOf]
  | intf :: intfs, visited => by
    rw [imoduleTraverseAll, traverseParentsOf, imoduleTraverseHelper_eq intf]
    simp only [imoduleTraverseAll_eq intfs]

end

theorem fillBaseItypes_eq (curNode : IdlInterface) (nodes : List IdlInterface) :
    fillBaseItypes curNode nodes = ccOutputBaseItypes curNode nodes := by
  induction nodes with
  | nil => rfl
  | cons parent nodes ih => rw [fillBaseItypes, ccOutputBaseItypes, ih]

/-- What the run-time module has where the compiler has `built`. -/
def ImoduleInterface.ofBuilt (built : BuiltInterface) : ImoduleInterface :=
  ⟨built.tree, createInterfaceTc built.tree.ident.repoId built.tree.ident.str, built.methods⟩

theorem addMethod_ofBuilt (list : List BuiltInterface) (tree : OpDcl) :
    addMethod (list.map .ofBuilt) tree = (appendMethod list tree).map .ofBuilt := by
  induction list with
  | nil => rfl
  | cons i list ih =>
    cases list with
    | nil => rfl
    | cons j list => exact congrArg (ImoduleInterface.ofBuilt i :: ·) ih

theorem addAttribute_ofBuilt (tree : AttrDcl) (list : List BuiltInterface) (name : List UInt8) :
    addAttribute tree (list.map .ofBuilt) name =
      ((attrFakeOps tree name).foldl appendMethod list).map .ofBuilt := by
  rw [addAttribute, fakeAttributeOps, attrFakeOps]
  by_cases hr : tree.readonly = true
  · rw [if_pos hr, if_pos hr]
    exact addMethod_ofBuilt list _
  · rw [if_neg hr, if_neg hr]
    exact (congrArg (addMethod · _) (addMethod_ofBuilt list _)).trans (addMethod_ofBuilt _ _)

theorem addAttributes_ofBuilt (tree : AttrDcl) (names : List (List UInt8))
    (list : List BuiltInterface) :
    names.foldl (addAttribute tree) (list.map .ofBuilt) =
      ((names.flatMap (attrFakeOps tree)).foldl appendMethod list).map .ofBuilt := by
  induction names generalizing list with
  | nil => rfl
  | cons name names ih =>
    rw [List.foldl_cons, addAttribute_ofBuilt, ih, List.flatMap_cons, List.foldl_append]

section
variable {nodeText : Ident → List UInt8}

theorem buildExports_ofBuilt {exports : List Export} {list : List BuiltInterface}
    {list' : List ImoduleInterface}
    (h : buildExports nodeText (list.map .ofBuilt) exports = some list') :
    list' = ((exports.flatMap Export.operations).foldl appendMethod list).map .ofBuilt := by
  induction exports generalizing list with
  | nil =>
    cases h
    rfl
  | cons e exports ih =>
    rw [List.flatMap_cons, List.foldl_append]
    cases e with
    | op tree _ =>
      rw [buildExports, addMethod_ofBuilt] at h
      exact ih h
    | attr tree =>
      rw [buildExports, addAttributes_ofBuilt, List.flatMap_map] at h
      exact ih h
    | type types =>
      obtain ⟨_, _, h⟩ := Option.bind_eq_some_iff.1 h
      exact ih h

mutual

/-- Both translators build the same list of interfaces and methods. -/
theorem iinterfaceBuildInterfaces_ofBuilt : (tree : Definition) → ∀ (list : List BuiltInterface)
    ⦃list' : List ImoduleInterface⦄,
    iinterfaceBuildInterfaces nodeText (list.map .ofBuilt) tree = some list' →
    list' = (buildInterfaces list tree).map .ofBuilt
  | .module definitionList => by
    intro list list' h
    rw [buildInterfaces]
    exact iinterfaceBuildList_ofBuilt definitionList list h
  | .interface intf => by
    intro list list' h
    rw [buildInterfaces]
    rw [iinterfaceBuildInterfaces] at h
    refine @buildExports_ofBuilt nodeText _ _ _ ?_
    rw [List.map_append]
    exact h
  | .type types => by
    intro list list' h
    obtain ⟨_, _, h⟩ := Option.bind_eq_some_iff.1 h
    cases h
    rw [buildInterfaces]

theorem iinterfaceBuildList_ofBuilt : (trees : List Definition) → ∀ (list : List BuiltInterface)
    ⦃list' : List ImoduleInterface⦄,
    iinterfaceBuildList nodeText (list.map .ofBuilt) trees = some list' →
    list' = (buildAllInterfaces list trees).map .ofBuilt
  | [] => by
    intro list list' h
    cases h
    rw [buildAllInterfaces]
  | tree :: trees => by
    intro list list' h
    obtain ⟨list₁, h₁, h⟩ := Option.bind_eq_some_iff.1 h
    rw [iinterfaceBuildInterfaces_ofBuilt tree list h₁] at h
    rw [buildAllInterfaces]
    exact iinterfaceBuildList_ofBuilt trees _ h

end

/-- What the run-time module returns, interface by interface. -/
theorem iinterfacesFromTree_spec {tree : Definition} {run : List ORBitIInterface}
    (h : iinterfacesFromTree nodeText tree = some run) :
    List.Forall₂ (fun built i => iinterfaceFromInterface nodeText (.ofBuilt built) = some i)
      (buildInterfaces [] tree) run := by
  obtain ⟨list, hlist, h⟩ := Option.bind_eq_some_iff.1 h
  rw [iinterfaceBuildInterfaces_ofBuilt tree [] hlist] at h
  exact List.forall₂_map_left_iff.1 (forall₂_of_mapM h)

/-! ### Arguments, methods and interfaces -/

variable {emitted : List UInt8 → Nat} {enclosing : Ident → CTypeCode}

theorem tcVoid_agree : TypeCodesAgree tcVoid tcVoid :=
  CTypeCode.agree_leaf rfl (fun _ => rfl) rfl rfl rfl rfl rfl (by simp [AlignedTypeCode.allocate])

theorem forall₂_iff_forall {α β : Type} {R S : α → β → Prop} {P : α → Prop} {l : List α} {l' : List β}
    (h : List.Forall₂ R l l') (hs : ∀ a b, R a b → (S a b ↔ P a)) :
    List.Forall₂ S l l' ↔ ∀ a ∈ l, P a := by
  induction h with
  | nil => simp
  | cons hab _ ih => rw [List.forall₂_cons, List.forall_mem_cons, hs _ _ hab, ih]

theorem same_tc_iff {type : IdlType} {tc : CTypeCode}
    (h : (imoduleTypeCode nodeText type).map plain = some tc) :
    TypeCodesAgree (staticTypeCode emitted enclosing type) tc ↔ type.agreeing emitted nodeText := by
  obtain ⟨tc', htc, rfl⟩ := Option.map_eq_some_iff.1 h
  exact agree_iff emitted enclosing nodeText type htc

theorem same_fillIarg_iff {parm : ParamDcl} {arg : ORBitIArg} (h : fillIarg nodeText parm = some arg) :
    (ccOutputIarg emitted enclosing parm).Same arg ↔ parm.typeSpec.agreeing emitted nodeText := by
  obtain ⟨tc, htc, h⟩ := Option.bind_eq_some_iff.1 h
  cases h
  rw [← agree_iff emitted enclosing nodeText _ htc]
  refine ⟨ORBitIArg.Same.tc, fun ha => ⟨ha, ?_, rfl⟩⟩
  simp only [ccOutputIarg, imoduleTypeIsFixedLength_eq]
  cases cbeTypeIsFixedLength parm.typeSpec
  · exact Nat.or_zero _
  · rfl

theorem same_fillRet_iff {opTypeSpec : Option IdlType} {ret : CTypeCode}
    (h : fillRet nodeText opTypeSpec = some ret) :
    TypeCodesAgree (ccOutputRet emitted enclosing opTypeSpec) ret ↔
      ∀ type ∈ opTypeSpec, type.agreeing emitted nodeText := by
  cases opTypeSpec with
  | none =>
    cases h
    exact iff_of_true tcVoid_agree (by simp)
  | some type =>
    rw [ccOutputRet, same_tc_iff h]
    simp

theorem OpDcl.forall_types {P : IdlType → Prop} {op : OpDcl} :
    (∀ type ∈ op.types, P type) ↔
      (∀ type ∈ op.typeSpec, P type) ∧ (∀ parm ∈ op.parameterDcls, P parm.typeSpec) ∧
        ∀ type ∈ op.raisesExpr, P type := by
  rw [OpDcl.types, List.forall_mem_append, List.forall_mem_append, List.forall_mem_map, and_assoc]
  simp only [Option.mem_toList, Option.mem_def]

/-- The two descriptions of a method are equal if and only if the translators treat alike the
types in its declaration; its names, its lists and its flags are equal anyway. -/
theorem same_fillMethod_iff {tree : OpDcl} {method : ORBitIMethod}
    (h : fillMethod nodeText tree = some method) :
    (ccOutputMethod emitted enclosing tree).Same method ↔
      ∀ type ∈ tree.types, type.agreeing emitted nodeText := by
  obtain ⟨arguments, harguments, h⟩ := Option.bind_eq_some_iff.1 h
  obtain ⟨exceptions, hexceptions, h⟩ := Option.bind_eq_some_iff.1 h
  obtain ⟨ret, hret, h⟩ := Option.bind_eq_some_iff.1 h
  cases h
  have harguments' : List.Forall₂ (fun parm arg => (ccOutputIarg emitted enclosing parm).Same arg)
      tree.parameterDcls arguments ↔
      ∀ parm ∈ tree.parameterDcls, parm.typeSpec.agreeing emitted nodeText :=
    forall₂_iff_forall (forall₂_of_mapM harguments) fun _ _ harg => same_fillIarg_iff harg
  have hexceptions' : List.Forall₂ (fun type tc => TypeCodesAgree (staticTypeCode emitted enclosing type) tc)
      tree.raisesExpr exceptions ↔ ∀ type ∈ tree.raisesExpr, type.agreeing emitted nodeText :=
    forall₂_iff_forall (forall₂_of_mapM hexceptions) fun _ _ htc => same_tc_iff htc
  have hret' := @same_fillRet_iff nodeText emitted enclosing _ _ hret
  have hfixed : tree.typeSpec.any imoduleTypeIsFixedLength = tree.typeSpec.any cbeTypeIsFixedLength := by
    cases tree.typeSpec with
    | none => rfl
    | some type => exact imoduleTypeIsFixedLength_eq type
  rw [OpDcl.forall_types, ← harguments', ← hexceptions', ← hret']
  constructor
  · intro hs
    exact ⟨hs.ret, List.forall₂_map_left_iff.1 hs.arguments, List.forall₂_map_left_iff.1 hs.exceptions⟩
  · rintro ⟨hr, hargs, hexcs⟩
    refine ⟨List.forall₂_map_left_iff.2 hargs, rfl, List.forall₂_map_left_iff.2 hexcs, hr, rfl, rfl, ?_⟩
    simp only [ccOutputMethod, hfixed]
    split <;> split <;> split <;> rfl

/-- The two descriptions of an interface differ in the repository id of `Object`, and in what
the translators treat differently in the types of its operations. -/
theorem sameButObject_iff {built : BuiltInterface} {i : ORBitIInterface}
    (h : iinterfaceFromInterface nodeText (.ofBuilt built) = some i) :
    (ccOutputItype emitted enclosing built).SameButObject i ↔
      ∀ op ∈ built.methods, ∀ type ∈ op.types, type.agreeing emitted nodeText := by
  obtain ⟨methods, hmethods, h⟩ := Option.bind_eq_some_iff.1 h
  cases h
  have hmethods' : List.Forall₂ (fun op m => (ccOutputMethod emitted enclosing op).Same m)
      built.methods methods ↔
      ∀ op ∈ built.methods, ∀ type ∈ op.types, type.agreeing emitted nodeText :=
    forall₂_iff_forall (forall₂_of_mapM hmethods) fun _ _ hm => same_fillMethod_iff hm
  have htc : imoduleTypeCode nodeText (.interface built.tree.ident ⟨false, false⟩) =
      some (createInterfaceTc built.tree.ident.repoId built.tree.ident.str) := by
    rw [imoduleTypeCode]
  have hwalk : fillBaseItypes built.tree built.tree.imoduleTraverseParents =
      ccOutputBaseItypes built.tree built.tree.traverseParents := by
    rw [fillBaseItypes_eq, IdlInterface.imoduleTraverseParents, IdlInterface.imoduleTraverseHelper_eq]
    rfl
  refine (Iff.trans ?_ hmethods')
  constructor
  · intro hs
    exact List.forall₂_map_left_iff.1 hs.methods
  · intro hm
    refine ⟨?_, List.forall₂_map_left_iff.2 hm, ?_, ?_, ?_⟩
    · exact (agree_iff emitted enclosing nodeText _ htc).2 (by simp [IdlType.agreeing])
    · simp [ccOutputItype, ImoduleInterface.ofBuilt, hwalk]
    · simp [ccOutputItype]
    · simp [ImoduleInterface.ofBuilt]

theorem not_same {built : BuiltInterface} {i : ORBitIInterface}
    (h : iinterfaceFromInterface nodeText (.ofBuilt built) = some i) :
    ¬ (ccOutputItype emitted enclosing built).Same i := by
  obtain ⟨methods, _, h⟩ := Option.bind_eq_some_iff.1 h
  cases h
  intro hs
  have hlast := congrArg List.getLast? hs.baseInterfaces
  simp only [ccOutputItype, List.getLast?_append, List.getLast?_singleton, Option.some_or] at hlast
  exact absurd hlast (by decide)

end

/-- `interface A {};` -/
def interfaceA : Definition :=
  .interface (.mk 0 ⟨ascii "A", ascii "IDL:A:1.0", ascii "A"⟩ [] [])

end ORBit2
