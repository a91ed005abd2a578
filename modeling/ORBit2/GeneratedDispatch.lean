import ORBit2.Base.Grouping
import ORBit2.Base.Traversal
import ORBit2.IdlInterfaces

/-! The code that the IDL compiler emits to find the skeleton of an operation by its name, and
what it emits about the same operation elsewhere: the method in `__imethods` and the call in
the stub. -/

set_option autoImplicit false

namespace ORBit2
open Grouping Traversal

/-! ### Methods and stubs -/

/-- `Interface` of orbit-idl-c-common.c. -/
structure BuiltInterface where
  tree : IdlInterface
  methods : List OpDcl

/-- `IDLN_OP_DCL` in `cc_build_interfaces`: the method goes to the last interface. -/
@[grind =] def appendMethod : List BuiltInterface → OpDcl → List BuiltInterface
  | [], _ => []
  | [i], op => [{ i with methods := i.methods ++ [op] }]
  | i :: list, op => i :: appendMethod list op

mutual

/-- `cc_build_interfaces`. -/
@[grind =] def buildInterfaces (list : List BuiltInterface) : Definition → List BuiltInterface
  | .module definitionList => buildAllInterfaces list definitionList
  | .interface intf => (intf.body.flatMap Export.operations).foldl appendMethod (list ++ [⟨intf, []⟩])
  | .type _ => list

@[grind =] def buildAllInterfaces (list : List BuiltInterface) : List Definition → List BuiltInterface
  | [] => list
  | tree :: trees => buildAllInterfaces (buildInterfaces list tree) trees

end

/-- What the stub of an operation passes to `ORBit_c_stub_invoke`: the methods that the index is
an index of, the index, the class, and the structure and the member of the epv offset. -/
structure StubInvocation where
  opname : List UInt8
  methods : List UInt8
  methodIndex : Nat
  classId : List UInt8
  epv : List UInt8
  epvMember : List UInt8
  skeleton : List UInt8
  deriving DecidableEq

/-- The C name of an operation. -/
def cName (intf : IdlInterface) (opname : List UInt8) : List UInt8 :=
  intf.ident.qstring ++ ascii "_" ++ opname

/-- `cs_output_stub`. -/
def outputStub (intf : IdlInterface) (idx : Nat) (op : OpDcl) : StubInvocation :=
  ⟨cName intf op.ident, intf.ident.qstring ++ ascii "__iinterface", idx,
    intf.ident.qstring ++ ascii "__classid", ascii "POA_" ++ intf.ident.qstring ++ ascii "__epv",
    op.ident, ascii "_ORBIT_skel_small_" ++ cName intf op.ident⟩

/-- The operations in the body of an interface, `idx` counting them. -/
@[grind =] def outputOperations (intf : IdlInterface) (idx : Nat) : List OpDcl → List StubInvocation
  | [] => []
  | op :: ops => outputStub intf idx op :: outputOperations intf (idx+1) ops

mutual

/-- `cs_output_stubs`. -/
@[grind =] def outputStubs : Definition → List StubInvocation
  | .module definitionList => outputAllStubs definitionList
  | .interface intf => outputOperations intf 0 (intf.body.flatMap Export.operations)
  | .type _ => []

@[grind =] def outputAllStubs : List Definition → List StubInvocation
  | [] => []
  | tree :: trees => outputStubs tree ++ outputAllStubs trees

end

mutual

/-- The interfaces that are defined in a file. -/
@[grind =] def Definition.interfaces : Definition → List IdlInterface
  | .module definitionList => Definition.allInterfaces definitionList
  | .interface intf => [intf]
  | .type _ => []

@[grind =] def Definition.allInterfaces : List Definition → List IdlInterface
  | [] => []
  | tree :: trees => interfaces tree ++ allInterfaces trees

end

/-! ### The relayers -/

/-- `CBESkelOpInfo`. -/
structure CBESkelOpInfo where
  ifaceId : List UInt8
  opname : List UInt8
  idx : Nat
  deriving DecidableEq

/-- `strcmp (s, t) <= 0`; the characters are compared as `unsigned char`. -/
@[grind =] def strcmpLe : List UInt8 → List UInt8 → Bool
  | [], _ => true
  | _ :: _, [] => false
  | a :: s, b :: t => a.toNat < b.toNat || (a == b && strcmpLe s t)

/-- `cbe_skel_compare_op_dcls`. -/
def compareOpDcls (op1 op2 : CBESkelOpInfo) : Prop := strcmpLe op1.opname op2.opname = true

instance : DecidableRel compareOpDcls := fun op1 op2 =>
  inferInstanceAs (Decidable (strcmpLe op1.opname op2.opname = true))

/-- The names that `cbe_skel_interface_add_relayer` gives to the operations of an export. -/
def Export.relayerNames : Export → List (List UInt8)
  | .op dcl _ => [dcl.ident]
  | .attr dcl =>
      dcl.simpleDeclarations.flatMap fun curattrdcl =>
        let get := ascii "_get_" ++ curattrdcl.1
        let set := ascii "_set_" ++ curattrdcl.1
        if dcl.readonly then [get] else [get, set]
  | .type _ => []

/-- `g_slist_insert_sorted` of the names, `idx` counting them. -/
@[grind =] def insertRelayers (ifaceId : List UInt8) (idx : Nat) (oplist : List CBESkelOpInfo) :
    List (List UInt8) → List CBESkelOpInfo
  | [] => oplist
  | opname :: names =>
      insertRelayers ifaceId (idx+1) (oplist.orderedInsert compareOpDcls ⟨ifaceId, opname, idx⟩) names

/-- `cbe_skel_interface_add_relayer`. -/
def addRelayer (oplist : List CBESkelOpInfo) (intf : IdlInterface) : List CBESkelOpInfo :=
  insertRelayers intf.ident.qstring 0 oplist (intf.body.flatMap Export.relayerNames)

/-- What the emitted code hands back: the epv and its member for `impl`, the interface and
the index of the method for `m_data`, and the skeleton. -/
structure SmallSkeleton where
  epv : List UInt8
  epvMember : List UInt8
  methods : List UInt8
  methodIndex : Nat
  skeleton : List UInt8
  deriving DecidableEq

/-- The statements that `cbe_skel_interface_print_relayers` prints behind a `case`. -/
inductive Relayer where
  | switch (level : Nat) (cases : List (UInt8 × Relayer))
  | answer (strcmp : Option (Nat × List UInt8)) (skel : SmallSkeleton)

/-- `opname[level]`. -/
def charAt (opname : List UInt8) (level : Nat) : UInt8 := opname.getD level 0

def CBESkelOpInfo.skeleton (opi : CBESkelOpInfo) : SmallSkeleton :=
  ⟨opi.ifaceId ++ ascii "_epv", opi.opname, opi.ifaceId ++ ascii "__iinterface", opi.idx,
    ascii "_ORBIT_skel_small_" ++ opi.ifaceId ++ ascii "_" ++ opi.opname⟩

/-- What is printed for the operations with one character: the answer for a single one, and
`print` for more. `none` is the `g_error` of two operations with one name. -/
def printCase (level : Nat) (print : List CBESkelOpInfo → Option Relayer) :
    UInt8 × List CBESkelOpInfo → Option (UInt8 × Relayer)
  | (curchar, [opi]) =>
      let rest := opi.opname.drop level
      some (curchar, .answer (if rest.length ≠ 0 then some (level+1, rest.drop 1) else none)
        opi.skeleton)
  | (curchar, subiti) =>
      if curchar ≠ 0 then (print subiti).map fun code => (curchar, code) else none

/-- `cbe_skel_interface_print_relayers`, to a depth of calls. -/
@[grind =] def printRelayers : Nat → (level : Nat) → List CBESkelOpInfo → Option Relayer
  | 0, _, _ => none
  | fuel+1, level, oplist => do
      let cases ← (groups (fun opi => charAt opi.opname level)
          (oplist.filter fun opi => level ≤ opi.opname.length)).mapM
        (printCase level (printRelayers fuel (level+1)))
      some (.switch level cases)

/-- The operations of an interface and of those it inherits from, by name. -/
def IdlInterface.oplist (intf : IdlInterface) : List CBESkelOpInfo :=
  intf.traverseParents.foldl addRelayer []

/-- `get_skel_small_%s`, as `cbe_skel_interface_print_relayer` prints it. No operation is as
deep as there are characters in the names. -/
def getSkelSmall (intf : IdlInterface) : Option Relayer :=
  printRelayers ((intf.oplist.map (·.opname.length)).sum + 1) 0 intf.oplist

mutual

/-- The emitted code, called with a name; `none` is `return NULL`, behind all switches. -/
@[grind =] def Relayer.run (opname : List UInt8) : Relayer → Option SmallSkeleton
  | .switch level cases => Relayer.runCases opname (charAt opname level) cases
  | .answer none skel => some skel
  | .answer (some (start, rest)) skel => if opname.drop start = rest then some skel else none

@[grind =] def Relayer.runCases (opname : List UInt8) (c : UInt8) : List (UInt8 × Relayer) → Option SmallSkeleton
  | [] => none
  | (curchar, code) :: cases =>
      if curchar = c then code.run opname else Relayer.runCases opname c cases

end

/-! ### The sorted list -/

theorem strcmpLe_total (s t : List UInt8) : strcmpLe s t = true ∨ strcmpLe t s = true := by
  induction s generalizing t with
  | nil => exact .inl rfl
  | cons a s ih =>
    cases t with
    | nil => exact .inr rfl
    | cons b t =>
      simp only [strcmpLe, Bool.or_eq_true, decide_eq_true_eq, Bool.and_eq_true, beq_iff_eq]
      rcases Nat.lt_trichotomy a.toNat b.toNat with h | h | h
      · exact .inl (.inl h)
      · have hab := UInt8.toNat_inj.1 h
        rcases ih t with hs | ht
        · exact .inl (.inr ⟨hab, hs⟩)
        · exact .inr (.inr ⟨hab.symm, ht⟩)
      · exact .inr (.inl h)

theorem strcmpLe_trans {s t u : List UInt8} (h : strcmpLe s t = true) (h' : strcmpLe t u = true) :
    strcmpLe s u = true := by
  induction s generalizing t u with
  | nil => rfl
  | cons a s ih =>
    cases t with
    | nil => cases h
    | cons b t =>
      cases u with
      | nil => cases h'
      | cons c u =>
        simp only [strcmpLe, Bool.or_eq_true, decide_eq_true_eq, Bool.and_eq_true, beq_iff_eq]
          at h h' ⊢
        rcases h with h | ⟨rfl, h⟩
        · rcases h' with h' | ⟨rfl, _⟩
          · exact .inl (h.trans h')
          · exact .inl h
        · rcases h' with h' | ⟨rfl, h'⟩
          · exact .inl h'
          · exact .inr ⟨rfl, ih h h'⟩

instance : Std.Total compareOpDcls := ⟨fun _ _ => strcmpLe_total _ _⟩

instance : IsTrans CBESkelOpInfo compareOpDcls := ⟨fun _ _ _ => strcmpLe_trans⟩

/-- Behind what two names have in common, the next characters are in order. -/
theorem charAt_le_of_strcmpLe (common s t : List UInt8)
    (h : strcmpLe (common ++ s) (common ++ t) = true) :
    (charAt (common ++ s) common.length).toNat ≤ (charAt (common ++ t) common.length).toNat := by
  induction common with
  | nil =>
    cases s with
    | nil => exact Nat.zero_le _
    | cons a s =>
      cases t with
      | nil => cases h
      | cons b t =>
        simp only [List.nil_append, strcmpLe, Bool.or_eq_true, decide_eq_true_eq, Bool.and_eq_true,
          beq_iff_eq] at h
        rcases h with h | ⟨rfl, _⟩
        · exact Nat.le_of_lt h
        · exact Nat.le_refl _
  | cons a common ih =>
    simp only [List.cons_append, strcmpLe, Nat.lt_irrefl, decide_false, Bool.false_or,
      BEq.rfl, Bool.true_and] at h
    exact ih h

/-- The entries of a list of names. -/
def relayerEntries (ifaceId : List UInt8) (idx : Nat) (names : List (List UInt8)) :
    List CBESkelOpInfo :=
  (names.zipIdx idx).map fun (opname, idx) => ⟨ifaceId, opname, idx⟩

theorem insertRelayers_spec (ifaceId : List UInt8) (names : List (List UInt8)) (idx : Nat)
    (oplist : List CBESkelOpInfo) (h : oplist.Pairwise compareOpDcls) :
    (insertRelayers ifaceId idx oplist names).Pairwise compareOpDcls ∧
      (insertRelayers ifaceId idx oplist names).Perm
        (oplist ++ relayerEntries ifaceId idx names) := by
  induction names generalizing idx oplist with
  | nil => simpa [insertRelayers, relayerEntries] using h
  | cons opname names ih =>
    obtain ⟨hsorted, hperm⟩ := ih (idx+1) _
      (List.Pairwise.orderedInsert ⟨ifaceId, opname, idx⟩ oplist h)
    refine ⟨hsorted, hperm.trans ?_⟩
    have hinsert := (List.perm_orderedInsert compareOpDcls ⟨ifaceId, opname, idx⟩ oplist).append_right
      (relayerEntries ifaceId (idx+1) names)
    refine hinsert.trans ?_
    rw [relayerEntries, relayerEntries, List.zipIdx_cons, List.map_cons]
    exact List.perm_middle.symm

theorem attrFakeOps_idents (attr : AttrDcl) (name : List UInt8) :
    (attrFakeOps attr name).map OpDcl.ident =
      if attr.readonly then [ascii "_get_" ++ name]
      else [ascii "_get_" ++ name, ascii "_set_" ++ name] := by
  rw [attrFakeOps]
  split <;> rfl

/-- The names of the relayers are those of the operations, in the same order. -/
theorem Export.relayerNames_eq (export' : Export) :
    export'.relayerNames = export'.operations.map OpDcl.ident := by
  cases export' with
  | op dcl _ => rfl
  | attr dcl =>
    rw [relayerNames, operations, List.map_flatMap]
    refine List.flatMap_congr ?_
    intro name _
    rw [attrFakeOps_idents]
  | type _ => rfl

/-- What a relayer holds for each operation of an interface. -/
def IdlInterface.entries (intf : IdlInterface) : List CBESkelOpInfo :=
  intf.operations.zipIdx.map fun (op, idx) => ⟨intf.ident.qstring, op.ident, idx⟩

theorem relayerEntries_eq (intf : IdlInterface) :
    relayerEntries intf.ident.qstring 0 (intf.body.flatMap Export.relayerNames) = intf.entries := by
  have hnames : intf.body.flatMap Export.relayerNames = intf.operations.map OpDcl.ident := by
    rw [IdlInterface.operations, List.map_flatMap]
    exact List.flatMap_congr fun e _ => e.relayerNames_eq
  rw [relayerEntries, hnames, List.zipIdx_map, List.map_map, IdlInterface.entries]
  rfl

theorem addRelayers_spec (intfs : List IdlInterface) (oplist : List CBESkelOpInfo)
    (h : oplist.Pairwise compareOpDcls) :
    (intfs.foldl addRelayer oplist).Pairwise compareOpDcls ∧
      (intfs.foldl addRelayer oplist).Perm (oplist ++ intfs.flatMap IdlInterface.entries) := by
  induction intfs generalizing oplist with
  | nil => simpa using h
  | cons intf intfs ih =>
    obtain ⟨hsorted, hperm⟩ := insertRelayers_spec intf.ident.qstring
      (intf.body.flatMap Export.relayerNames) 0 oplist h
    obtain ⟨hsorted', hperm'⟩ := ih _ hsorted
    refine ⟨hsorted', hperm'.trans ?_⟩
    rw [relayerEntries_eq] at hperm
    rw [List.flatMap_cons, ← List.append_assoc]
    exact hperm.append_right _

theorem IdlInterface.oplist_spec (intf : IdlInterface) :
    intf.oplist.Pairwise compareOpDcls ∧
      intf.oplist.Perm (intf.traverseParents.flatMap IdlInterface.entries) :=
  addRelayers_spec intf.traverseParents [] .nil

/-! ### The decision tree -/

/-- The tree answers with the operation of the name it is asked for. -/
def Answers (code : Relayer) (oplist : List CBESkelOpInfo) (opname : List UInt8) : Prop :=
  ∀ skel, code.run opname = some skel ↔ ∃ opi ∈ oplist, opi.opname = opname ∧ opi.skeleton = skel

theorem charAt_append (common s : List UInt8) :
    charAt (common ++ s) common.length = s.headD 0 := by
  rw [charAt, List.getD_eq_getElem?_getD, List.getElem?_append_right (Nat.le_refl _), Nat.sub_self]
  cases s <;> rfl

/-- A name without NULs ends where its character is zero. -/
theorem eq_of_charAt_zero {common opname : List UInt8} (hp : common <+: opname) (h0 : 0 ∉ opname)
    (hc : charAt opname common.length = 0) : opname = common := by
  obtain ⟨s, rfl⟩ := hp
  rw [charAt_append] at hc
  cases s with
  | nil => exact List.append_nil _
  | cons c s =>
    have hzero : c = 0 := hc
    rw [hzero] at h0
    simp at h0

theorem prefix_append_charAt {common opname : List UInt8} (hp : common <+: opname)
    (hc : charAt opname common.length ≠ 0) :
    common ++ [charAt opname common.length] <+: opname := by
  obtain ⟨s, rfl⟩ := hp
  rw [charAt_append] at hc ⊢
  cases s with
  | nil => exact absurd rfl hc
  | cons c s => exact ⟨s, by simp⟩

theorem run_answer_none (skel : SmallSkeleton) (opname : List UInt8) :
    (Relayer.answer none skel).run opname = some skel := by
  rw [Relayer.run]

theorem run_answer_some (start : Nat) (rest : List UInt8) (skel : SmallSkeleton)
    (opname : List UInt8) :
    (Relayer.answer (some (start, rest)) skel).run opname =
      if opname.drop start = rest then some skel else none := by
  rw [Relayer.run]

/-- The single operation with a character is answered if the rest of the name is as it
should be. -/
theorem run_answer {common opname : List UInt8} {opi : CBESkelOpInfo} (hp : common <+: opname)
    (hop : common <+: opi.opname) (h0 : 0 ∉ opname) (h0' : 0 ∉ opi.opname)
    (hc : charAt opi.opname common.length = charAt opname common.length) (skel : SmallSkeleton) :
    (Relayer.answer (if (opi.opname.drop common.length).length ≠ 0 then
        some (common.length + 1, (opi.opname.drop common.length).drop 1) else none)
      opi.skeleton).run opname = some skel ↔ opi.opname = opname ∧ opi.skeleton = skel := by
  by_cases hend : charAt opname common.length = 0
  · have hname := eq_of_charAt_zero hp h0 hend
    have hname' := eq_of_charAt_zero hop h0' (hc.trans hend)
    have hdrop : opi.opname.drop common.length = [] := by rw [hname', List.drop_length]
    rw [hdrop, if_neg (by simp), run_answer_none, Option.some.injEq, hname', hname]
    simp
  · obtain ⟨s, rfl⟩ := hp
    obtain ⟨t, ht⟩ := hop
    rw [← ht, charAt_append, charAt_append] at hc
    rw [charAt_append] at hend
    cases s with
    | nil => exact absurd rfl hend
    | cons c s =>
      cases t with
      | nil => exact absurd hc.symm hend
      | cons d t =>
        have hcd : d = c := hc
        have hdrop : (common ++ c :: s).drop (common.length + 1) = s := by
          rw [← List.drop_drop, List.drop_left]
          rfl
        rw [← ht, hcd, List.drop_left, if_pos (by simp), run_answer_some, hdrop]
        simp [eq_comm]

theorem fst_of_printCase {level : Nat} {print : List CBESkelOpInfo → Option Relayer}
    {group : UInt8 × List CBESkelOpInfo} {r : UInt8 × Relayer}
    (h : printCase level print group = some r) : r.1 = group.1 := by
  unfold printCase at h
  split at h
  · cases h
    rfl
  · split at h
    · obtain ⟨code, _, rfl⟩ := Option.map_eq_some_iff.1 h
      rfl
    · cases h

/-- The printed cases are looked up like the groups they are printed for. -/
theorem runCases_eq {f : UInt8 × List CBESkelOpInfo → Option (UInt8 × Relayer)}
    (hf : ∀ group r, f group = some r → r.1 = group.1) (opname : List UInt8) (c : UInt8)
    {runs : List (UInt8 × List CBESkelOpInfo)} {cases : List (UInt8 × Relayer)}
    (h : runs.mapM f = some cases) :
    Relayer.runCases opname c cases =
      (runs.lookup c).bind fun run => (f (c, run)).bind fun r => r.2.run opname := by
  induction runs generalizing cases with
  | nil =>
    cases h
    rfl
  | cons group runs ih =>
    rw [List.mapM_cons] at h
    obtain ⟨r, hr, h⟩ := Option.bind_eq_some_iff.1 h
    obtain ⟨rest, hrest, h⟩ := Option.bind_eq_some_iff.1 h
    cases h
    obtain ⟨curchar, subiti⟩ := group
    obtain ⟨curchar', code⟩ := r
    have hchar : curchar' = curchar := hf _ _ hr
    rw [Relayer.runCases, lookup_cons, hchar]
    by_cases hc : curchar = c
    · rw [if_pos hc, if_pos hc, Option.bind_some, ← hc, hr]
      rfl
    · rw [if_neg hc, if_neg hc]
      exact ih hrest

/-- The operations that are still to be told apart: their names begin alike. -/
structure Branch (common : List UInt8) (oplist : List CBESkelOpInfo) : Prop where
  sorted : oplist.Pairwise compareOpDcls
  distinct : (oplist.map CBESkelOpInfo.opname).Nodup
  common : ∀ opi ∈ oplist, common <+: opi.opname
  noNul : ∀ opi ∈ oplist, 0 ∉ opi.opname

theorem Branch.sub {common : List UInt8} {oplist run : List CBESkelOpInfo} {c : UInt8}
    (h : Branch common oplist) (hs : run.Sublist oplist)
    (hc : ∀ opi ∈ run, charAt opi.opname common.length = c) (hne : c ≠ 0) :
    Branch (common ++ [c]) run := by
  refine ⟨h.sorted.sublist hs, h.distinct.sublist (hs.map _), ?_, ?_⟩
  · intro opi hm
    have hp := prefix_append_charAt (h.common opi (hs.subset hm)) (by rwa [hc opi hm])
    rwa [hc opi hm] at hp
  · intro opi hm
    exact h.noNul opi (hs.subset hm)

/-- Octets that are in order both ways are equal. -/
instance octets_antisymm : Std.Antisymm fun a b : UInt8 => a.toNat ≤ b.toNat :=
  ⟨fun _ _ h h' => UInt8.toNat_inj.1 (Nat.le_antisymm h h')⟩

theorem Branch.keys {common : List UInt8} {oplist : List CBESkelOpInfo} (h : Branch common oplist) :
    oplist.Pairwise fun a b => (charAt a.opname common.length).toNat ≤
      (charAt b.opname common.length).toNat := by
  refine h.sorted.imp_of_mem ?_
  intro a b ha hb hle
  obtain ⟨s, hs⟩ := h.common a ha
  obtain ⟨t, ht⟩ := h.common b hb
  unfold compareOpDcls at hle
  rw [← hs, ← ht] at hle ⊢
  exact charAt_le_of_strcmpLe common s t hle

/-- Of the operations in a branch at most one has a name that ends here. -/
theorem Branch.zero {common : List UInt8} {oplist : List CBESkelOpInfo} (h : Branch common oplist)
    (hc : ∀ opi ∈ oplist, charAt opi.opname common.length = 0) : oplist.length ≤ 1 := by
  have hname : ∀ opi ∈ oplist, opi.opname = common := fun opi hm =>
    eq_of_charAt_zero (h.common opi hm) (h.noNul opi hm) (hc opi hm)
  match oplist, h.distinct with
  | [], _ => exact Nat.zero_le 1
  | [_], _ => exact Nat.le_refl 1
  | a :: b :: _, hd =>
    rw [List.map_cons, List.map_cons, hname a (by simp), hname b (by simp)] at hd
    simp at hd

/-- A tree is printed that tells the operations apart whose names begin alike. -/
def Prints (print : List CBESkelOpInfo → Option Relayer) (common : List UInt8)
    (oplist : List CBESkelOpInfo) : Prop :=
  ∃ code, print oplist = some code ∧
    ∀ opname, common <+: opname → 0 ∉ opname → Answers code oplist opname

/-- The case for a character, where a tree can be printed for the operations that have it. -/
theorem Branch.printCase {common : List UInt8} {oplist run : List CBESkelOpInfo} {c : UInt8}
    {print : List CBESkelOpInfo → Option Relayer} (h : Branch common oplist)
    (hs : run.Sublist oplist) (hc : ∀ opi ∈ run, charAt opi.opname common.length = c)
    (hrun : run ≠ []) (hprint : c ≠ 0 → Prints print (common ++ [c]) run) :
    ∃ code, printCase common.length print (c, run) = some (c, code) ∧
      ∀ opname, common <+: opname → 0 ∉ opname → charAt opname common.length = c →
        Answers code run opname := by
  match run, hrun with
  | [opi], _ =>
    have hm := hs.subset List.mem_cons_self
    refine ⟨_, rfl, ?_⟩
    intro opname hp h0 hchar skel
    rw [run_answer hp (h.common opi hm) h0 (h.noNul opi hm)
      ((hc opi List.mem_cons_self).trans hchar.symm)]
    simp
  | a :: b :: run, hrun =>
    by_cases hzero : c = 0
    · have hb : Branch common (a :: b :: run) :=
        ⟨h.sorted.sublist hs, h.distinct.sublist (hs.map _), fun opi hm =>
          h.common opi (hs.subset hm), fun opi hm => h.noNul opi (hs.subset hm)⟩
      have hone := hb.zero fun opi hm => (hc opi hm).trans hzero
      simp at hone
    · obtain ⟨code, hcode, hans⟩ := hprint hzero
      refine ⟨code, ?_, ?_⟩
      · rw [ORBit2.printCase, if_pos hzero, hcode]
        · rfl
        · intro opi
          simp
      · intro opname hp h0 hchar
        refine hans opname ?_ h0
        have hpre := prefix_append_charAt hp (by rwa [hchar])
        rwa [hchar] at hpre

/-- The tree for the operations that share the beginning of their names tells each from the
others. -/
theorem Branch.printRelayers (fuel : Nat) {common : List UInt8} {oplist : List CBESkelOpInfo}
    (h : Branch common oplist)
    (hfuel : ∀ opi ∈ oplist, opi.opname.length < common.length + fuel) (hpos : 0 < fuel) :
    Prints (printRelayers fuel common.length) common oplist := by
  induction fuel generalizing common oplist with
  | zero => omega
  | succ fuel ih =>
    let key := fun opi : CBESkelOpInfo => charAt opi.opname common.length
    have hfilter : oplist.filter (fun opi => common.length ≤ opi.opname.length) = oplist :=
      List.filter_eq_self.2 fun opi hm => by simpa using (h.common opi hm).length_le
    have hsub : ∀ c run, run.Sublist oplist → (∀ opi ∈ run, key opi = c) → run ≠ [] → c ≠ 0 →
        Prints (ORBit2.printRelayers fuel (common.length + 1)) (common ++ [c]) run := by
      intro c run hs hc hrun hne
      obtain ⟨opi, hm⟩ := List.exists_mem_of_ne_nil _ hrun
      have hb := h.sub hs hc hne
      have hl := (hb.common opi hm).length_le
      have hlt := hfuel opi (hs.subset hm)
      simp only [List.length_append, List.length_singleton] at hl
      have hih := ih hb (by
        intro opi' hm'
        have hlt' := hfuel opi' (hs.subset hm')
        simp only [List.length_append, List.length_singleton]
        omega) (by omega)
      rwa [List.length_append, List.length_singleton] at hih
    have hcase := fun c run hs hc hrun => h.printCase hs hc hrun (hsub c run hs hc hrun)
    obtain ⟨cases, hcases⟩ := exists_mapM
      (f := ORBit2.printCase common.length (ORBit2.printRelayers fuel (common.length + 1)))
      (l := groups key oplist) (by
        rintro ⟨c, run⟩ hm
        obtain ⟨hne, hkey⟩ := of_mem_groups hm
        obtain ⟨code, hcode, _⟩ := hcase c run (sublist_of_mem_groups hm) hkey hne
        exact ⟨_, hcode⟩)
    refine ⟨.switch common.length cases, ?_, ?_⟩
    · rw [ORBit2.printRelayers, hfilter, hcases]
      rfl
    · intro opname hp h0 skel
      rw [Relayer.run, runCases_eq (fun _ _ => fst_of_printCase) opname _ hcases,
        @lookup_groups _ _ _ key (fun a b : UInt8 => a.toNat ≤ b.toNat) _ oplist h.keys _, withKey]
      split
      · next hnone =>
        simp only [Option.bind_none, reduceCtorEq, false_iff, not_exists, not_and]
        rintro opi hm rfl
        have hk := List.filter_eq_nil_iff.1 hnone opi hm
        simp [key] at hk
      · next hsome =>
        obtain ⟨code, hcode, hans⟩ := hcase (charAt opname common.length)
          (oplist.filter (key · = charAt opname common.length)) List.filter_sublist
          (by simp [key]) hsome
        rw [Option.bind_some, hcode, Option.bind_some, hans opname hp h0 rfl skel]
        simp only [List.mem_filter, decide_eq_true_eq]
        constructor
        · rintro ⟨opi, ⟨hm, _⟩, hname⟩
          exact ⟨opi, hm, hname⟩
        · rintro ⟨opi, hm, rfl, hskel⟩
          exact ⟨opi, ⟨hm, rfl⟩, rfl, hskel⟩

/-! ### Names that are distinct on the wire -/

/-- The names that an export declares. -/
def Export.names : Export → List (List UInt8)
  | .op dcl _ => [dcl.ident]
  | .attr dcl => dcl.simpleDeclarations.map Subtype.val
  | .type _ => []

@[grind =] def IdlInterface.names (intf : IdlInterface) : List (List UInt8) := intf.body.flatMap Export.names

/-- No two operations or attributes of an interface and of those it inherits from have the
same name. -/
structure IdlInterface.DistinctNames (intf : IdlInterface) : Prop where
  within : ∀ i ∈ intf.nodes, i.names.Nodup
  across : ∀ i ∈ intf.nodes, ∀ j ∈ intf.nodes, i.place ≠ j.place → ∀ name ∈ i.names, name ∉ j.names

/-- The declared name behind a name on the wire. -/
def declaredName (opname : List UInt8) : List UInt8 :=
  if opname.head? = some 95 then opname.drop 5 else opname

/-- Each declared name with the names of its operations. -/
def Export.declared : Export → List (List UInt8 × List (List UInt8))
  | .op dcl _ => [(dcl.ident, [dcl.ident])]
  | .attr dcl =>
      dcl.simpleDeclarations.map fun name => (name.1, (attrFakeOps dcl name.1).map OpDcl.ident)
  | .type _ => []

theorem Export.declared_fst (export' : Export) : export'.declared.map Prod.fst = export'.names := by
  cases export' with
  | op dcl _ => rfl
  | attr dcl =>
    rw [declared, names, List.map_map]
    rfl
  | type _ => rfl

theorem Export.declared_snd (export' : Export) :
    export'.declared.flatMap Prod.snd = export'.operations.map OpDcl.ident := by
  cases export' with
  | op dcl _ => rfl
  | attr dcl => rw [declared, operations, List.flatMap_map, List.map_flatMap]
  | type _ => rfl

theorem declaredName_of_identifier {str : List UInt8} (h : isIdentifier str = true) :
    declaredName str = str := by
  cases str with
  | nil => cases h
  | cons c str =>
    have hne : c ≠ 95 := by
      rintro rfl
      simp [isIdentifier, isLetter] at h
    rw [declaredName, if_neg (by simpa using hne)]

theorem Export.declaredName_of_mem {export' : Export} {d : List UInt8 × List (List UInt8)}
    (h : d ∈ export'.declared) : d.2.Nodup ∧ ∀ opname ∈ d.2, declaredName opname = d.1 := by
  cases export' with
  | op dcl identifier =>
    rw [declared, List.mem_singleton] at h
    rw [h]
    exact ⟨by simp, by simpa using declaredName_of_identifier identifier⟩
  | attr dcl =>
    obtain ⟨name, _, rfl⟩ := List.mem_map.1 h
    simp only [attrFakeOps_idents]
    split
    · exact ⟨by simp, by simp [declaredName, ascii]⟩
    · exact ⟨by simp [ascii], by simp [declaredName, ascii]⟩
  | type _ => cases h

/-- Distinct declared names have distinct operations. -/
theorem nodup_of_declared {l : List (List UInt8 × List (List UInt8))} (h : (l.map Prod.fst).Nodup)
    (hl : ∀ d ∈ l, d.2.Nodup ∧ ∀ opname ∈ d.2, declaredName opname = d.1) :
    (l.flatMap Prod.snd).Nodup := by
  refine List.nodup_flatMap.2 ⟨fun d hd => (hl d hd).1, ?_⟩
  rw [List.Nodup, List.pairwise_map] at h
  refine h.imp_of_mem ?_
  intro d d' hd hd' hne opname hm hm'
  exact hne (((hl d hd).2 opname hm).symm.trans ((hl d' hd').2 opname hm'))

theorem nodup_wireNames {exports : List Export} (h : (exports.flatMap Export.names).Nodup) :
    ((exports.flatMap Export.operations).map OpDcl.ident).Nodup := by
  have hd := @nodup_of_declared (exports.flatMap Export.declared) (by
    rw [List.map_flatMap]
    simpa only [Export.declared_fst] using h) (by
    intro d hm
    obtain ⟨_, _, hm⟩ := List.mem_flatMap.1 hm
    exact Export.declaredName_of_mem hm)
  rw [List.flatMap_assoc] at hd
  rw [List.map_flatMap]
  simpa only [Export.declared_snd] using hd

theorem IdlInterface.map_entries (intf : IdlInterface) :
    intf.entries.map CBESkelOpInfo.opname = intf.operations.map OpDcl.ident := by
  rw [entries, List.map_map]
  change (intf.operations.zipIdx.map (OpDcl.ident ∘ Prod.fst)) = _
  rw [← List.map_map, List.zipIdx_map_fst]

/-- No two operations in the sorted list have the same name. -/
theorem IdlInterface.nodup_oplist {intf : IdlInterface} (hc : intf.Consistent) (hd : intf.DistinctNames) :
    (intf.oplist.map CBESkelOpInfo.opname).Nodup := by
  obtain ⟨hnodup, hmem⟩ := traverseParents_spec hc
  rw [(intf.oplist_spec.2.map _).nodup_iff, List.map_flatMap]
  simp only [map_entries]
  have hnames : ((intf.traverseParents.flatMap IdlInterface.body).flatMap Export.names).Nodup := by
    rw [List.flatMap_assoc]
    refine List.nodup_flatMap.2 ⟨fun i hi => hd.within i ((hmem i).1 hi), ?_⟩
    rw [List.Nodup, List.pairwise_map] at hnodup
    exact hnodup.imp_of_mem fun hi hj hne name =>
      hd.across _ ((hmem _).1 hi) _ ((hmem _).1 hj) hne name
  have hwire := nodup_wireNames hnames
  rwa [List.flatMap_assoc, List.map_flatMap] at hwire

theorem ascii_noNul {str : List UInt8} (h : isIdentifier str = true) : 0 ∉ str := by
  cases str with
  | nil => simp
  | cons c str =>
    simp only [isIdentifier, Bool.and_eq_true, List.all_eq_true] at h
    intro hm
    rcases List.mem_cons.1 hm with rfl | hm
    · have hl := h.1
      revert hl
      decide
    · have hl := h.2 0 hm
      revert hl
      decide

theorem Export.noNul {export' : Export} {op : OpDcl} (h : op ∈ export'.operations) :
    0 ∉ op.ident := by
  cases export' with
  | op dcl identifier =>
    rw [operations, List.mem_singleton] at h
    rw [h]
    exact ascii_noNul identifier
  | attr dcl =>
    obtain ⟨name, _, hm⟩ := List.mem_flatMap.1 h
    have h0 := ascii_noNul name.2
    have hident := List.mem_map_of_mem (f := OpDcl.ident) hm
    rw [attrFakeOps_idents] at hident
    split at hident <;> simp only [List.mem_cons, List.not_mem_nil, or_false] at hident
    · rw [hident]
      simpa [ascii] using h0
    · rcases hident with hident | hident <;>
      · rw [hident]
        simpa [ascii] using h0
  | type _ => cases h

theorem IdlInterface.branch_oplist {intf : IdlInterface} (hc : intf.Consistent) (hd : intf.DistinctNames) :
    Branch [] intf.oplist := by
  refine ⟨intf.oplist_spec.1, nodup_oplist hc hd, fun _ _ => List.nil_prefix, ?_⟩
  intro opi hm
  obtain ⟨i, _, hi⟩ := List.mem_flatMap.1 (intf.oplist_spec.2.mem_iff.1 hm)
  have hname := List.mem_map_of_mem (f := CBESkelOpInfo.opname) hi
  rw [map_entries] at hname
  obtain ⟨op, hop, hident⟩ := List.mem_map.1 hname
  obtain ⟨_, _, hop⟩ := List.mem_flatMap.1 hop
  rw [← hident]
  exact Export.noNul hop

/-! ### Agreement -/

theorem appendMethod_last (list : List BuiltInterface) (i : BuiltInterface) (op : OpDcl) :
    appendMethod (list ++ [i]) op = list ++ [{ i with methods := i.methods ++ [op] }] := by
  induction list with
  | nil => rfl
  | cons j list ih =>
    rw [List.cons_append, List.cons_append, ← ih]
    cases list <;> rfl

theorem foldl_appendMethod (list : List BuiltInterface) (intf : IdlInterface) (methods ops : List OpDcl) :
    ops.foldl appendMethod (list ++ [⟨intf, methods⟩]) = list ++ [⟨intf, methods ++ ops⟩] := by
  induction ops generalizing methods with
  | nil => simp
  | cons op ops ih =>
    rw [List.foldl_cons, appendMethod_last, ih, List.append_assoc]
    rfl

mutual

/-- The methods of each interface are its operations, in the order of its body. -/
theorem buildInterfaces_eq (list : List BuiltInterface) : (tree : Definition) →
    buildInterfaces list tree = list ++ tree.interfaces.map fun intf => ⟨intf, intf.operations⟩
  | .module definitionList => by
    rw [buildInterfaces, Definition.interfaces]
    exact buildAllInterfaces_eq list definitionList
  | .interface intf => foldl_appendMethod list intf [] _
  | .type _ => by
    rw [buildInterfaces, Definition.interfaces, List.map_nil, List.append_nil]

theorem buildAllInterfaces_eq (list : List BuiltInterface) : (trees : List Definition) →
    buildAllInterfaces list trees =
      list ++ (Definition.allInterfaces trees).map fun intf => ⟨intf, intf.operations⟩
  | [] => by
    rw [buildAllInterfaces, Definition.allInterfaces, List.map_nil, List.append_nil]
  | tree :: trees => by
    rw [buildAllInterfaces, buildAllInterfaces_eq _ trees, buildInterfaces_eq list tree,
      Definition.allInterfaces, List.map_append, List.append_assoc]

end

theorem getElem?_outputOperations (intf : IdlInterface) (ops : List OpDcl) (idx i : Nat) :
    (outputOperations intf idx ops)[i]? = ops[i]?.map (outputStub intf (idx + i)) := by
  induction ops generalizing idx i with
  | nil => rfl
  | cons op ops ih =>
    cases i with
    | zero => rfl
    | succ i =>
      rw [outputOperations, List.getElem?_cons_succ, List.getElem?_cons_succ, ih,
        Nat.add_assoc, Nat.add_comm 1 i]

mutual

/-- The stubs of an interface stand together. -/
theorem outputStubs_isInfix {i : IdlInterface} : (tree : Definition) → i ∈ tree.interfaces →
    outputStubs (.interface i) <:+: outputStubs tree
  | .module definitionList => by
    intro hm
    rw [Definition.interfaces] at hm
    rw [outputStubs.eq_def (.module definitionList)]
    exact outputAllStubs_isInfix definitionList hm
  | .interface intf => by
    intro hm
    rw [Definition.interfaces, List.mem_singleton] at hm
    subst hm
    exact List.infix_rfl
  | .type _ => by
    intro hm
    cases hm

theorem outputAllStubs_isInfix {i : IdlInterface} : (trees : List Definition) →
    i ∈ Definition.allInterfaces trees → outputStubs (.interface i) <:+: outputAllStubs trees
  | [] => by
    intro hm
    cases hm
  | tree :: trees => by
    intro hm
    rw [Definition.allInterfaces] at hm
    rw [outputAllStubs]
    rcases List.mem_append.1 hm with hm | hm
    · exact (outputStubs_isInfix tree hm).trans (List.prefix_append _ _).isInfix
    · exact (outputAllStubs_isInfix trees hm).trans (List.suffix_append _ _).isInfix

end

/-- What the emitted code hands back belongs to an operation: its skeleton, its entry in the
epv, its entry in `__imethods`, and what its stub says of it. -/
structure SmallSkeleton.Serves (skel : SmallSkeleton) (i : IdlInterface) (op : OpDcl) : Prop where
  skeleton : skel.skeleton = ascii "_ORBIT_skel_small_" ++ cName i op.ident
  epv : skel.epv = i.ident.qstring ++ ascii "_epv" ∧ skel.epvMember = op.ident
  methods : skel.methods = i.ident.qstring ++ ascii "__iinterface"
  entry : ∀ tree : Definition, ∀ built ∈ buildInterfaces [] tree, built.tree = i →
    built.methods[skel.methodIndex]? = some op
  stub : ∀ tree : Definition, i ∈ tree.interfaces → outputStubs (.interface i) <:+: outputStubs tree ∧
    ∃ stub, (outputStubs (.interface i))[skel.methodIndex]? = some stub ∧
      stub.opname = cName i op.ident ∧ stub.methods = skel.methods ∧
      stub.methodIndex = skel.methodIndex ∧ stub.classId = i.ident.qstring ++ ascii "__classid" ∧
      stub.epv = ascii "POA_" ++ i.ident.qstring ++ ascii "__epv" ∧
      stub.epvMember = skel.epvMember ∧ stub.skeleton = skel.skeleton

theorem serves_of_entry {i : IdlInterface} {op : OpDcl} {idx : Nat}
    (h : i.operations[idx]? = some op) :
    (CBESkelOpInfo.skeleton ⟨i.ident.qstring, op.ident, idx⟩).Serves i op := by
  have hcname : ascii "_ORBIT_skel_small_" ++ i.ident.qstring ++ ascii "_" ++ op.ident =
      ascii "_ORBIT_skel_small_" ++ cName i op.ident := by
    simp [cName]
  refine ⟨hcname, ⟨rfl, rfl⟩, rfl, ?_, ?_⟩
  · intro tree built hm hi
    rw [buildInterfaces_eq, List.nil_append] at hm
    obtain ⟨j, _, rfl⟩ := List.mem_map.1 hm
    have hj : j = i := hi
    rw [hj]
    exact h
  · intro tree hm
    refine ⟨outputStubs_isInfix tree hm, outputStub i idx op, ?_, rfl, rfl, rfl, rfl, rfl, rfl, hcname.symm⟩
    change (outputOperations i 0 i.operations)[idx]? = _
    rw [getElem?_outputOperations, h, Option.map_some, Nat.zero_add]

theorem SmallSkeleton.Serves.eq {skel : SmallSkeleton} {i : IdlInterface} {op : OpDcl}
    (h : skel.Serves i op) :
    i.operations[skel.methodIndex]? = some op ∧
      skel = CBESkelOpInfo.skeleton ⟨i.ident.qstring, op.ident, skel.methodIndex⟩ := by
  refine ⟨?_, ?_⟩
  · refine h.entry (.interface i) ⟨i, i.operations⟩ ?_ rfl
    rw [buildInterfaces_eq, Definition.interfaces]
    exact List.mem_cons_self
  · obtain ⟨epv, epvMember, methods, methodIndex, skeleton⟩ := skel
    have hs := h.skeleton
    have he := h.epv
    have hm := h.methods
    simp only at hs he hm
    rw [CBESkelOpInfo.skeleton, SmallSkeleton.mk.injEq]
    exact ⟨he.1, he.2, hm, rfl, by rw [hs]; simp [cName]⟩

/-- For every graph of interfaces whose names are distinct the compiler emits a function that
finds for each name the operation of that name, with the method and the members that the
stub of the operation refers to, and nothing for any other string. -/
theorem getSkelSmall_serves {intf : IdlInterface} (hc : intf.Consistent) (hd : intf.DistinctNames) :
    ∃ code, getSkelSmall intf = some code ∧
      ∀ opname : List UInt8, 0 ∉ opname → ∀ skel, code.run opname = some skel ↔
        ∃ i ∈ intf.nodes, ∃ op ∈ i.operations, op.ident = opname ∧ skel.Serves i op := by
  have hfuel : ∀ opi ∈ intf.oplist,
      opi.opname.length < ([] : List UInt8).length + ((intf.oplist.map (·.opname.length)).sum + 1) := by
    intro opi hm
    have hle := List.le_sum_of_mem (List.mem_map_of_mem (f := fun opi => opi.opname.length) hm)
    simp only [List.length_nil]
    omega
  obtain ⟨code, hcode, hans⟩ :=
    (IdlInterface.branch_oplist hc hd).printRelayers _ hfuel (Nat.succ_pos _)
  refine ⟨code, hcode, ?_⟩
  intro opname h0 skel
  rw [hans opname List.nil_prefix h0 skel]
  have hmem := (IdlInterface.traverseParents_spec hc).2
  constructor
  · rintro ⟨opi, hm, hname, rfl⟩
    obtain ⟨i, hi, hopi⟩ := List.mem_flatMap.1 (intf.oplist_spec.2.mem_iff.1 hm)
    obtain ⟨⟨op, idx⟩, hentry, rfl⟩ := List.mem_map.1 hopi
    rw [List.mem_zipIdx_iff_getElem?] at hentry
    exact ⟨i, (hmem i).1 hi, op, List.mem_of_getElem? hentry, hname, serves_of_entry hentry⟩
  · rintro ⟨i, hi, op, _, hname, hserves⟩
    obtain ⟨hentry, hskel⟩ := hserves.eq
    refine ⟨⟨i.ident.qstring, op.ident, skel.methodIndex⟩, ?_, hname, hskel.symm⟩
    refine intf.oplist_spec.2.mem_iff.2 (List.mem_flatMap.2 ⟨i, (hmem i).2 hi, ?_⟩)
    exact List.mem_map.2 ⟨(op, skel.methodIndex), List.mem_zipIdx_iff_getElem?.2 hentry, rfl⟩

/-- `interface A { void f (); attribute long x; }; interface B : A { void fg (); };
interface C : A {}; interface D : B, C { readonly attribute long f2; };` -/
def diamond : IdlInterface :=
  let ident (name : String) : Ident := ⟨ascii name, ascii ("IDL:" ++ name ++ ":1.0"), ascii name⟩
  let a := IdlInterface.mk 0 (ident "A") []
    [.op ⟨false, none, ascii "f", [], [], []⟩ rfl,
      .attr ⟨false, .integer true .long, [⟨ascii "x", rfl⟩]⟩]
  let b := IdlInterface.mk 1 (ident "B") [a] [.op ⟨false, none, ascii "fg", [], [], []⟩ rfl]
  let c := IdlInterface.mk 2 (ident "C") [a] []
  .mk 3 (ident "D") [b, c] [.attr ⟨true, .integer true .long, [⟨ascii "f2", rfl⟩]⟩]

theorem diamond_nodes : ∃ a b c, diamond.nodes = [diamond, b, a, c, a] ∧ diamond.place = 3 ∧
    b.place = 1 ∧ a.place = 0 ∧ c.place = 2 ∧ diamond.names = [ascii "f2"] ∧
    b.names = [ascii "fg"] ∧ a.names = [ascii "f", ascii "x"] ∧ c.names = [] :=
  ⟨_, _, _, rfl, rfl, rfl, rfl, rfl, rfl, rfl, rfl, rfl⟩

theorem diamond_consistent : diamond.Consistent := by
  obtain ⟨a, b, c, hn, hd, hb, ha, hc, _⟩ := diamond_nodes
  intro i hi j hj hp
  rw [hn] at hi hj
  simp only [List.mem_cons, List.not_mem_nil, or_false] at hi hj
  rcases hi with rfl | rfl | rfl | rfl | rfl <;> rcases hj with rfl | rfl | rfl | rfl | rfl <;>
    first | rfl | (exfalso; omega)

theorem diamond_distinctNames : diamond.DistinctNames := by
  obtain ⟨a, b, c, hn, hd, hb, ha, hc, hd', hb', ha', hc'⟩ := diamond_nodes
  constructor
  · intro i hi
    rw [hn] at hi
    simp only [List.mem_cons, List.not_mem_nil, or_false] at hi
    rcases hi with rfl | rfl | rfl | rfl | rfl
    · rw [hd']
      decide
    · rw [hb']
      decide
    · rw [ha']
      decide
    · rw [hc']
      decide
    · rw [ha']
      decide
  · intro i hi j hj hp
    rw [hn] at hi hj
    simp only [List.mem_cons, List.not_mem_nil, or_false] at hi hj
    rcases hi with rfl | rfl | rfl | rfl | rfl <;> rcases hj with rfl | rfl | rfl | rfl | rfl <;>
      first
      | exact absurd rfl hp
      | (simp only [hd', hb', ha', hc']; decide)

theorem getSkelSmall_diamond : ∃ code, getSkelSmall diamond = some code ∧
    ∀ opname : List UInt8, 0 ∉ opname → ∀ skel, code.run opname = some skel ↔
      ∃ i ∈ diamond.nodes, ∃ op ∈ i.operations, op.ident = opname ∧ skel.Serves i op :=
  getSkelSmall_serves diamond_consistent diamond_distinctNames

end ORBit2
