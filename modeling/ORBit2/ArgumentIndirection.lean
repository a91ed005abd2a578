import ORBit2.Adaptor
import ORBit2.MethodDescriptions

/-! How the arguments of an operation are passed: the C type of a parameter, what the stub stores in
`args [i]` of it, where the ORB looks for the value, and what the skeleton hands to the servant. -/

set_option autoImplicit false

namespace ORBit2.Indirection

/-- The node types a type specification can have. -/
inductive NodeType where
  | integer | float | fixed | char | wideChar | string | wideString | boolean | octet | any | object
  | typeCode | enum | sequence | array | struct | union | native | interface | forwardDcl | exceptDcl
  deriving DecidableEq, Repr

/-- `IDL_ParamRole` -/
inductive ParamRole where
  | dataIn | dataInout | dataOut | dataReturn
  deriving DecidableEq, Repr

/-- `oidl_attr_to_paramrole` -/
def attrToParamrole : ParamAttr → ParamRole
  | .paramIn => .dataIn
  | .paramInout => .dataInout
  | .paramOut => .dataOut

/-- `orbit_cbe_get_typespec`; the node of an array is the one of its declarator. -/
def getTypespec : IdlType → IdlType
  | .typedef (.ident _) typeSpec => getTypespec typeSpec
  | type => type

/-- A C type as it is printed; a name stands for the IDL type it was made from. -/
inductive TypeText where
  | name (const : Bool) (type : IdlType)
  /-- `const CORBA_char *` -/
  | characters
  /-- `%s_slice` -/
  | slice (type : TypeText)
  /-- `%s*` -/
  | pointer (type : TypeText)

def TypeText.text : TypeText → List UInt8
  | .name const type => (if const then ascii "const " else []) ++ type.typespecStr
  | .characters => ascii "const CORBA_char *"
  | .slice type => type.text ++ ascii "_slice"
  | .pointer type => type.text ++ ascii "*"

/-- A name that a `typedef` has introduced is the type it was introduced for. -/
def TypeText.resolved : TypeText → TypeText
  | .name const type => .name const (getTypespec type)
  | .characters => .characters
  | .slice type => type.resolved.slice
  | .pointer type => type.resolved.pointer

def TypeText.pointers : TypeText → Nat
  | .pointer type => type.pointers + 1
  | _ => 0

def TypeText.starred (type : TypeText) : Nat → TypeText
  | 0 => type
  | n+1 => (type.starred n).pointer

section Compiler
-- which names are those of interfaces that are only declared
variable (forward : Ident → Bool)

/-- The type of a node that `orbit_cbe_get_typespec` gives. -/
def nodeType : IdlType → NodeType
  | .integer _ _ => .integer
  | .float _ => .float
  | .char => .char
  | .wideChar => .wideChar
  | .boolean => .boolean
  | .octet => .octet
  | .any => .any
  | .object => .object
  | .typeCode => .typeCode
  | .string _ => .string
  | .wideString _ => .wideString
  | .enum _ _ => .enum
  | .interface ident _ => if forward ident then .forwardDcl else .interface
  | .struct _ _ => .struct
  | .except _ _ => .exceptDcl
  | .union _ _ _ => .union
  | .sequence _ _ | .recursiveSequence _ _ => .sequence
  | .typedef (.array _ _) _ => .array
  | .typedef (.ident _) typeSpec => nodeType typeSpec

/-- `orbit_cbe_get_typeoffsets_table`; -1 is `none`. -/
def typeoffsets : NodeType → Option Nat
  | .forwardDcl => some 8
  | .integer => some 0
  | .float => some 0
  | .fixed => some 3
  | .char => some 5
  | .wideChar => some 6
  | .string => some 12
  | .wideString => some 13
  | .boolean => some 4
  | .octet => some 7
  | .any => some 16
  | .object => some 9
  | .typeCode => some 9
  | .enum => some 8
  | .sequence => some 14
  | .array => some 15
  | .struct => some 10
  | .union => some 11
  | .native => some 15
  | .interface => some 9
  | .exceptDcl => none

def nptrrefsRequired : List (List Nat) :=
  [[0,1,1,0], [0,1,1,0], [0,1,1,0], [1,1,1,0], [0,1,1,0], [0,1,1,0], [0,1,1,0], [0,1,1,0], [0,1,1,0],
    [0,1,1,0], [1,1,1,0], [1,1,1,0], [0,1,1,0], [0,1,1,0], [1,1,2,1], [0,0,0,0], [1,1,2,1]]

def ParamRole.column : ParamRole → Nat
  | .dataIn => 0
  | .dataInout => 1
  | .dataOut => 2
  | .dataReturn => 3

/-- `oidl_param_info`, the stars and `isSlice`, for a node and whether it is of fixed length; without
an answer, the compiler stops. -/
def oidlParamInfo (node : NodeType) (isFixed : Bool) (role : ParamRole) : Option (Nat × Bool) :=
  let (retval, isSlice) :=
    match node with
    | .struct | .union => (if (role = .dataReturn ∨ role = .dataOut) ∧ ¬ isFixed then 1 else 0, false)
    | .array =>
        if role = .dataReturn then (1, true)
        else if role = .dataOut ∧ ¬ isFixed then (2, true)
        else (0, false)
    | _ => (0, false)
  match typeoffsets node with
  | none => none
  | some typeidx =>
      ((nptrrefsRequired[typeidx]?).bind fun row => row[role.column]?).map fun n =>
        (retval + n, isSlice)

/-- What `orbit_cbe_write_param_typespec_str` prints first. -/
def typeName (ts : IdlType) (role : ParamRole) : TypeText :=
  if role = .dataIn then
    if (getTypespec ts).typespecStr = ascii "CORBA_string" then .characters else .name true ts
  else .name false ts

/-- `orbit_cbe_write_param_typespec_str` -/
def writeParamTypespecStr (ts : IdlType) (role : ParamRole) : Option TypeText :=
  (oidlParamInfo (nodeType forward ts) (cbeTypeIsFixedLength ts) role).map fun (n, isSlice) =>
    (if isSlice then (typeName ts role).slice else typeName ts role).starred n

/-- `orbit_cbe_flatten_ref`; the compiler stops where there is no text. -/
def flattenRef (role : ParamRole) (typespec : IdlType) : Option (List UInt8) :=
  let isFixed := cbeTypeIsFixedLength typespec
  match role with
  | .dataIn =>
      match nodeType forward typespec with
      | .integer | .float | .enum | .boolean | .char | .wideChar | .octet
      | .string | .wideString
      | .object | .interface | .forwardDcl
      | .typeCode | .native => some (ascii "(gpointer)&")
      | .struct | .union | .any | .sequence | .array => some (ascii "(gpointer)")
      | .fixed | .exceptDcl => none
  | .dataInout =>
      match nodeType forward typespec with
      | .fixed | .exceptDcl => none
      | _ => some (ascii "")
  | .dataOut =>
      match nodeType forward typespec with
      | .integer | .float | .enum | .boolean | .char | .wideChar | .octet
      | .string | .wideString
      | .object | .interface | .forwardDcl
      | .typeCode | .native => some (ascii "&")
      | .struct | .union | .array => if isFixed then some (ascii "&") else some (ascii "")
      | .sequence | .any => some (ascii "")
      | .fixed | .exceptDcl => none
  | .dataReturn => none

/-- What stands in front of `args [i]`: a cast, and a star in front of that or none. -/
structure Cast where
  star : Bool
  type : TypeText

/-- `orbit_cbe_unflatten_ref` -/
def unflattenRef (role : ParamRole) (typespec : IdlType) : Option Cast :=
  let isFixed := cbeTypeIsFixedLength typespec
  (writeParamTypespecStr forward typespec role).bind fun typestr =>
    match role with
    | .dataIn =>
        match nodeType forward typespec with
        | .integer | .float | .enum | .boolean | .char | .wideChar | .octet
        | .string | .wideString
        | .object | .interface | .forwardDcl
        | .typeCode | .native => some ⟨true, typestr.pointer⟩
        | .array => some ⟨false, typestr.slice.pointer⟩
        | .struct | .union | .any | .sequence => some ⟨false, typestr⟩
        | .fixed | .exceptDcl => none
    | .dataInout =>
        match nodeType forward typespec with
        | .array => some ⟨false, typestr.slice.pointer⟩
        | .fixed | .exceptDcl => none
        | _ => some ⟨false, typestr⟩
    | .dataOut =>
        match nodeType forward typespec with
        | .integer | .float | .enum | .boolean | .char | .wideChar | .octet
        | .string | .wideString
        | .object | .interface | .forwardDcl
        | .typeCode | .native => some ⟨true, typestr.pointer⟩
        | .array =>
            if isFixed then some ⟨true, typestr.slice.pointer.pointer⟩ else some ⟨false, typestr⟩
        | .struct | .union => if isFixed then some ⟨true, typestr.pointer⟩ else some ⟨false, typestr⟩
        | .sequence | .any => some ⟨false, typestr⟩
        | .fixed | .exceptDcl => none
    | .dataReturn => none

/-- `orbit_cbe_flatten_args`, for one parameter. -/
def flattenArg (parm : ParamDcl) : Option (List UInt8) :=
  flattenRef forward (attrToParamrole parm.attr) (getTypespec parm.typeSpec)

/-- `orbit_cbe_unflatten_args`, for one parameter. -/
def unflattenArg (parm : ParamDcl) : Option Cast :=
  unflattenRef forward (attrToParamrole parm.attr) (getTypespec parm.typeSpec)

/-- In C a parameter of an array type is a pointer to what the array is made of. -/
def TypeText.adjusted : TypeText → TypeText
  | .name const type =>
      if nodeType forward type = .array then (TypeText.name const type).slice.pointer
      else .name const type
  | type => type

/-- The type of a parameter of the stub and of the servant. -/
def parameterType (parm : ParamDcl) : Option TypeText :=
  (writeParamTypespecStr forward parm.typeSpec (attrToParamrole parm.attr)).map
    (TypeText.adjusted forward)

end Compiler

/-! ### In memory -/

/-- What is at an address. -/
abbrev Memory : Type := Nat → Nat

def follow (m : Memory) : Nat → Nat → Nat
  | 0, place => place
  | n+1, place => follow m n (m place)

/-- What the stub stores in `args [i]`, with the text that is put in front of the parameter. -/
def stored (m : Memory) (text : List UInt8) (param : Nat) : Nat := if 38 ∈ text then param else m param

/-- Where the servant finds the value. -/
def Cast.place (c : Cast) (m : Memory) (arg : Nat) : Nat := follow m (c.type.pointers - 1) arg

/-- The type of the expression. -/
def Cast.result (c : Cast) : Option TypeText :=
  match c.star, c.type with
  | false, type => some type
  | true, .pointer type => some type
  | true, _ => none

def flag (a : ORBitIArg) (n : Nat) : Bool := a.flags &&& n ≠ 0

/-- `BASE_TYPES` and `OBJ_STRING_TYPES` -/
def simple (kind : TCKind) : Bool := Shape.ofKind kind false false != .variable

/-- Where `orbit_small_marshal` finds a value. -/
def marshalPlace (a : ORBitIArg) (arg : Nat) : Option Nat :=
  if flag a argIn || flag a argInout then some arg else none

/-- Where `orbit_small_demarshal` leaves a value; `block` is what `ORBit_demarshal_arg` allocates. -/
def demarshalPlace (a : ORBitIArg) (m : Memory) (arg block : Nat) : Option (Memory × Nat) :=
  if flag a argOut || flag a argInout then
    let place := if flag a argOut then m arg else arg
    if simple a.tc.skipAlias.kind then some (m, place)
    else if flag a commonFixedSize then some (m, place)
    else if flag a argInout then some (m, place)
    else some (Function.update m arg block, block)
  else none

/-- `args [i]` of `ORBit_small_invoke_adaptor`, where `block` is allocated and `scratch` is the place
of `scratch [i]`. -/
def adaptorArg (a : ORBitIArg) (m : Memory) (scratch block : Nat) : Memory × Nat :=
  if flag a argIn || flag a argInout then (m, block)
  else if Shape.ofKind a.tc.skipAlias.kind (flag a commonFixedSize) true = .variable then
    (Function.update m scratch 0, scratch)
  else (Function.update m scratch block, scratch)

/-- Where `ORBit_small_invoke_adaptor` finds a value for the reply. -/
def replyPlace (a : ORBitIArg) (m : Memory) (arg scratch : Nat) : Option Nat :=
  if flag a argInout then some arg
  else if flag a argOut then some (m scratch)
  else none

/-! ### Agreement -/

/-- A type that a parameter can have; an array has a size, and not the name of a type of the ORB. -/
def Parameter : IdlType → Prop
  | .except _ _ => False
  | .typedef (.ident _) typeSpec => Parameter typeSpec
  | .typedef (.array ident sizes) _ => sizes ≠ [] ∧ ident.qstring ≠ ascii "CORBA_string"
  | _ => True

/-- What is stored in `args [i]` is what the ORB and the skeleton take it for. -/
structure Agrees (parm : ParamDcl) (a : ORBitIArg) (type : TypeText) (text : List UInt8)
    (cast : Cast) : Prop where
  received : cast.result = some type.resolved
  count : type.pointers + text.count 38 = cast.type.pointers
  direct : ∀ m param, cast.place m (stored m text param) = follow m type.pointers param
  marshalled : parm.attr ≠ .paramOut → ∀ m param,
    marshalPlace a (stored m text param) = some (follow m type.pointers param)
  demarshalled : parm.attr ≠ .paramIn → ∀ m param block, (∀ place, m place ≠ param) →
    ∃ m', demarshalPlace a m (stored m text param) block = some (m', follow m' type.pointers param) ∧
      ∀ place, place ≠ m param → m' place = m place
  given : parm.attr ≠ .paramOut ∨ type.pointers = 1 → ∀ m scratch block,
    cast.place (adaptorArg a m scratch block).1 (adaptorArg a m scratch block).2 = block
  replied : parm.attr ≠ .paramIn → ∀ m scratch block m',
    replyPlace a m' (adaptorArg a m scratch block).2 scratch =
      some (cast.place m' (adaptorArg a m scratch block).2)

section
variable (emitted : List UInt8 → Nat) (enclosing : Ident → CTypeCode) (forward : Ident → Bool)

def NodeType.isSimple : NodeType → Bool
  | .integer | .float | .enum | .boolean | .char | .wideChar | .octet | .string | .wideString
  | .object | .interface | .forwardDcl | .typeCode => true
  | _ => false

/-- What the compiler knows of a type, and the kind of the TypeCode it emits. -/
inductive Emits : NodeType → Bool → TCKind → Prop where
  | simple {node : NodeType} {isFixed : Bool} {kind : TCKind} (hnode : node.isSimple = true)
      (hkind : simple kind = true) : Emits node isFixed kind
  | compound {node : NodeType} {isFixed : Bool} {kind : TCKind} (hnode : node = .struct ∨ node = .union)
      (hkind : kind = .struct ∨ kind = .union) : Emits node isFixed kind
  | array {isFixed : Bool} : Emits .array isFixed .array
  | heap {node : NodeType} {kind : TCKind} (hnode : node = .sequence ∨ node = .any)
      (hkind : kind = .sequence ∨ kind = .any) : Emits node false kind

theorem getTypespec_idem : (type : IdlType) → getTypespec (getTypespec type) = getTypespec type
  | .typedef (.ident _) typeSpec => getTypespec_idem typeSpec
  | .typedef (.array _ _) _ => rfl
  | .integer _ _ | .float _ | .char | .wideChar | .boolean | .octet | .any | .object | .typeCode
  | .string _ | .wideString _ | .enum _ _ | .interface _ _ | .struct _ _ | .except _ _ | .union _ _ _
  | .sequence _ _ | .recursiveSequence _ _ => rfl

theorem nodeType_getTypespec : (type : IdlType) →
    nodeType forward (getTypespec type) = nodeType forward type
  | .typedef (.ident _) typeSpec => nodeType_getTypespec typeSpec
  | .typedef (.array _ _) _ => rfl
  | .integer _ _ | .float _ | .char | .wideChar | .boolean | .octet | .any | .object | .typeCode
  | .string _ | .wideString _ | .enum _ _ | .interface _ _ | .struct _ _ | .except _ _ | .union _ _ _
  | .sequence _ _ | .recursiveSequence _ _ => rfl

theorem isFixedLength_getTypespec : (type : IdlType) →
    cbeTypeIsFixedLength (getTypespec type) = cbeTypeIsFixedLength type
  | .typedef (.ident _) typeSpec => by
    rw [cbeTypeIsFixedLength]
    exact isFixedLength_getTypespec typeSpec
  | .typedef (.array _ _) _ => rfl
  | .integer _ _ | .float _ | .char | .wideChar | .boolean | .octet | .any | .object | .typeCode
  | .string _ | .wideString _ | .enum _ _ | .interface _ _ | .struct _ _ | .except _ _ | .union _ _ _
  | .sequence _ _ | .recursiveSequence _ _ => rfl

theorem emits : (type : IdlType) → Parameter type →
    Emits (nodeType forward type) (cbeTypeIsFixedLength type)
      (staticTypeCode emitted enclosing type).skipAlias.kind
  | .typedef (.ident _) typeSpec, h => by
    rw [cbeTypeIsFixedLength, staticTypeCode]
    exact emits typeSpec h
  | .typedef (.array _ []) _, h => absurd rfl h.1
  | .typedef (.array _ (_ :: _)) typeSpec, _ => by
    rw [staticTypeCode]
    exact .array
  | .integer signed type, _ => by
    refine .simple rfl ?_
    cases type <;> cases signed <;> rw [staticTypeCode] <;> rfl
  | .float type, _ => by
    refine .simple rfl ?_
    cases type <;> rw [staticTypeCode] <;> rfl
  | .char, _ | .wideChar, _ | .boolean, _ | .octet, _ | .object, _ | .typeCode, _ | .string _, _
  | .wideString _, _ | .enum _ _, _ => by
    refine .simple rfl ?_
    rw [staticTypeCode]
    rfl
  | .interface ident _, _ => by
    refine .simple ?_ ?_
    · cases hforward : forward ident <;> simp [nodeType, hforward, NodeType.isSimple]
    · rw [staticTypeCode]
      rfl
  | .struct _ _, _ => by
    rw [staticTypeCode]
    exact .compound (.inl rfl) (.inl rfl)
  | .union _ _ _, _ => by
    rw [staticTypeCode]
    exact .compound (.inr rfl) (.inr rfl)
  | .sequence _ _, _ | .recursiveSequence _ _, _ => by
    rw [cbeTypeIsFixedLength, staticTypeCode]
    exact .heap (.inl rfl) (.inl rfl)
  | .any, _ => by
    rw [cbeTypeIsFixedLength, staticTypeCode]
    exact .heap (.inr rfl) (.inr rfl)

theorem typeName_resolved (ts : IdlType) (role : ParamRole) :
    (typeName ts role).resolved = typeName (getTypespec ts) role := by
  unfold typeName
  rw [getTypespec_idem]
  split
  · split <;> rfl
  · rfl

theorem pointers_typeName (ts : IdlType) (role : ParamRole) : (typeName ts role).pointers = 0 := by
  unfold typeName
  split
  · split <;> rfl
  · rfl

theorem array_name : (type : IdlType) → Parameter type → nodeType forward type = .array →
    (getTypespec type).typespecStr ≠ ascii "CORBA_string"
  | .typedef (.ident _) typeSpec, h, hnode => array_name typeSpec h hnode
  | .typedef (.array _ _) _, h, _ => by
    rw [getTypespec, IdlType.typespecStr]
    · exact h.2
    · intro _ _ hdcl
      cases hdcl
  | .interface ident _, _, hnode => by
    rw [nodeType] at hnode
    split at hnode <;> cases hnode

/-! The flags of an argument. -/

variable {emitted enclosing} {parm : ParamDcl}

/-- Each flag of an argument is a bit of its own. -/
theorem flag_ccOutputIarg (n : Nat) : flag (ccOutputIarg emitted enclosing parm) n =
    decide (((match parm.attr with
      | .paramIn => 32
      | .paramOut => 64
      | .paramInout => 128) ||| (if cbeTypeIsFixedLength parm.typeSpec then 1 else 0)) &&& n ≠ 0) := rfl

theorem flag_fixed : flag (ccOutputIarg emitted enclosing parm) commonFixedSize =
    cbeTypeIsFixedLength parm.typeSpec := by
  rw [flag_ccOutputIarg, commonFixedSize]
  cases parm.attr <;> cases cbeTypeIsFixedLength parm.typeSpec <;> decide

theorem flag_in : flag (ccOutputIarg emitted enclosing parm) argIn = decide (parm.attr = .paramIn) := by
  rw [flag_ccOutputIarg, argIn]
  cases parm.attr <;> cases cbeTypeIsFixedLength parm.typeSpec <;> decide

theorem flag_out : flag (ccOutputIarg emitted enclosing parm) argOut = decide (parm.attr = .paramOut) := by
  rw [flag_ccOutputIarg, argOut]
  cases parm.attr <;> cases cbeTypeIsFixedLength parm.typeSpec <;> decide

theorem flag_inout :
    flag (ccOutputIarg emitted enclosing parm) argInout = decide (parm.attr = .paramInout) := by
  rw [flag_ccOutputIarg, argInout]
  cases parm.attr <;> cases cbeTypeIsFixedLength parm.typeSpec <;> decide

/-! What each kind of passing comes to. -/

theorem stored_of_count {text : List UInt8} (m : Memory) (param : Nat) :
    stored m text param = follow m (if text.count 38 = 0 then 1 else 0) param := by
  unfold stored
  by_cases hmem : (38 : UInt8) ∈ text
  · rw [if_pos hmem, if_neg (List.count_pos_iff.mpr hmem).ne']
    rfl
  · rw [if_neg hmem, if_pos (List.count_eq_zero.mpr hmem)]
    rfl

variable {type : TypeText} {text : List UInt8} {cast : Cast}

/-- `in` and `inout`: `args [i]` is the place of the value. -/
theorem agrees_in (hattr : parm.attr ≠ .paramOut) (hreceived : cast.result = some type.resolved)
    (hcount : type.pointers + text.count 38 = 1) (hcast : cast.type.pointers = 1) :
    Agrees parm (ccOutputIarg emitted enclosing parm) type text cast := by
  have hflags : (flag (ccOutputIarg emitted enclosing parm) argIn ||
      flag (ccOutputIarg emitted enclosing parm) argInout) = true := by
    rw [flag_in, flag_inout]
    revert hattr
    cases parm.attr <;> decide
  have hout : flag (ccOutputIarg emitted enclosing parm) argOut = false := by
    rw [flag_out, decide_eq_false hattr]
  have hstored : ∀ m param, stored m text param = follow m type.pointers param := by
    intro m param
    rw [stored_of_count]
    congr 1
    split <;> omega
  have hplace : ∀ m arg, cast.place m arg = arg := by
    intro m arg
    rw [Cast.place, hcast]
    rfl
  refine ⟨hreceived, by omega, ?_, ?_, ?_, ?_, ?_⟩
  · intro m param
    rw [hplace, hstored]
  · intro _ m param
    rw [marshalPlace, if_pos hflags, hstored]
  · intro hin m param block _
    have hinout : flag (ccOutputIarg emitted enclosing parm) argInout = true := by
      rw [flag_inout]
      revert hattr hin
      cases parm.attr <;> decide
    refine ⟨m, ?_, fun place _ => rfl⟩
    simp [demarshalPlace, hout, hinout, hstored]
  · intro _ m scratch block
    rw [hplace, adaptorArg, if_pos hflags]
  · intro hin m scratch block m'
    have hinout : flag (ccOutputIarg emitted enclosing parm) argInout = true := by
      rw [flag_inout]
      revert hattr hin
      cases parm.attr <;> decide
    rw [replyPlace, if_pos hinout, hplace]

/-- `out`: `args [i]` is the place of a pointer, which the caller has set if its parameter has one
star. -/
theorem agrees_out (hattr : parm.attr = .paramOut) (hreceived : cast.result = some type.resolved)
    (hcount : type.pointers + text.count 38 = 2) (hcast : cast.type.pointers = 2)
    (hdemarshal : type.pointers = if simple (staticTypeCode emitted enclosing parm.typeSpec).skipAlias.kind ∨
      cbeTypeIsFixedLength parm.typeSpec then 1 else 2)
    (hadaptor : type.pointers = if Shape.ofKind (staticTypeCode emitted enclosing
      parm.typeSpec).skipAlias.kind (cbeTypeIsFixedLength parm.typeSpec) true = .variable then 2 else 1) :
    Agrees parm (ccOutputIarg emitted enclosing parm) type text cast := by
  have hin : flag (ccOutputIarg emitted enclosing parm) argIn = false := by
    rw [flag_in, hattr]
    rfl
  have hinout : flag (ccOutputIarg emitted enclosing parm) argInout = false := by
    rw [flag_inout, hattr]
    rfl
  have hout : flag (ccOutputIarg emitted enclosing parm) argOut = true := by
    rw [flag_out, decide_eq_true hattr]
  have hplace : ∀ m arg, cast.place m arg = m arg := by
    intro m arg
    rw [Cast.place, hcast]
    rfl
  have hscratch : ∀ m scratch block,
      (adaptorArg (ccOutputIarg emitted enclosing parm) m scratch block).2 = scratch := by
    intro m scratch block
    rw [adaptorArg, hin, hinout, if_neg (by decide)]
    split <;> rfl
  have hpointers : type.pointers = 1 ∨ type.pointers = 2 := by
    rw [hdemarshal]
    split
    · exact .inl rfl
    · exact .inr rfl
  have hstored : ∀ m param, m (stored m text param) = follow m type.pointers param := by
    intro m param
    rw [stored_of_count]
    have hstars : type.pointers = (if text.count 38 = 0 then 1 else 0) + 1 := by
      split <;> omega
    rw [hstars]
    split <;> rfl
  refine ⟨hreceived, by omega, ?_, fun h => absurd hattr h, ?_, ?_, ?_⟩
  · intro m param
    rw [hplace, hstored m param]
  · intro _ m param block hfresh
    by_cases hset : simple (staticTypeCode emitted enclosing parm.typeSpec).skipAlias.kind ∨
        cbeTypeIsFixedLength parm.typeSpec
    · refine ⟨m, ?_, fun place _ => rfl⟩
      rw [demarshalPlace, hout, Bool.true_or, if_pos rfl, if_pos rfl, hstored m param, flag_fixed]
      rcases hset with hsimple | hfixed
      · exact if_pos hsimple
      · dsimp only
        rw [hfixed, if_pos rfl, ite_self]
    · rw [if_neg hset] at hdemarshal
      have htext : stored m text param = m param := by
        rw [stored_of_count, if_pos (by omega)]
        rfl
      rw [not_or] at hset
      refine ⟨Function.update m (m param) block, ?_, fun place hplace => Function.update_of_ne hplace _ _⟩
      -- the parameter itself is somewhere else
      have hparam : Function.update m (m param) block param = m param :=
        Function.update_of_ne (hfresh param).symm _ _
      have hfollow : follow (Function.update m (m param) block) 2 param = block := by
        rw [follow, follow, follow, hparam, Function.update_self]
      rw [demarshalPlace, hout, Bool.true_or, if_pos rfl, hinout, flag_fixed, hdemarshal, hfollow, htext]
      dsimp only
      rw [ccOutputIarg, if_neg hset.1, if_neg hset.2, if_neg Bool.false_ne_true]
  · intro h m scratch block
    have hone : type.pointers = 1 := h.resolve_left (fun h => h hattr)
    rw [hplace, hscratch, adaptorArg, hin, hinout, if_neg (by decide), flag_fixed, if_neg]
    · exact Function.update_self _ _ _
    · intro hvariable
      rw [ccOutputIarg] at hvariable
      rw [if_pos hvariable] at hadaptor
      omega
  · intro _ m scratch block m'
    rw [replyPlace, hinout, if_neg Bool.false_ne_true, hout, if_pos rfl, hplace, hscratch]

variable {forward}

theorem adjusted_typeName {ts : IdlType} (h : nodeType forward ts ≠ .array) (role : ParamRole) :
    (typeName ts role).adjusted forward = typeName ts role := by
  unfold typeName
  split
  · split
    · rfl
    · exact if_neg h
  · exact if_neg h

theorem adjusted_array {ts : IdlType} (hp : Parameter ts) (h : nodeType forward ts = .array)
    (role : ParamRole) : (typeName ts role).adjusted forward = (typeName ts role).slice.pointer := by
  have hname := array_name forward ts hp h
  unfold typeName
  rw [if_neg hname]
  split
  · exact if_pos h
  · exact if_pos h

/-- A parameter whose type and texts are there and agree. -/
def Passed (emitted : List UInt8 → Nat) (enclosing : Ident → CTypeCode) (forward : Ident → Bool)
    (parm : ParamDcl) : Prop :=
  ∃ type text cast, parameterType forward parm = some type ∧ flattenArg forward parm = some text ∧
    unflattenArg forward parm = some cast ∧
    Agrees parm (ccOutputIarg emitted enclosing parm) type text cast

/-- What is printed for a parameter, of its stars and whether it is a slice. -/
theorem passed_of {role : ParamRole} (hrole : attrToParamrole parm.attr = role) (core core' : TypeText)
    (stars : Nat) (isSlice : Bool) (text : List UInt8)
    (hinfo : oidlParamInfo (nodeType forward parm.typeSpec) (cbeTypeIsFixedLength parm.typeSpec) role =
      some (stars, isSlice))
    (hcore : (if isSlice then (typeName parm.typeSpec role).slice else typeName parm.typeSpec role) = core)
    (hcore' : (if isSlice then (typeName (getTypespec parm.typeSpec) role).slice
      else typeName (getTypespec parm.typeSpec) role) = core')
    (htype : (core.starred stars).adjusted forward = type)
    (htext : flattenRef forward role (getTypespec parm.typeSpec) = some text)
    (hcast : writeParamTypespecStr forward (getTypespec parm.typeSpec) role = some (core'.starred stars) →
      unflattenRef forward role (getTypespec parm.typeSpec) = some cast)
    (hagrees : Agrees parm (ccOutputIarg emitted enclosing parm) type text cast) :
    Passed emitted enclosing forward parm := by
  refine ⟨type, text, cast, ?_, ?_, ?_, hagrees⟩
  · rw [parameterType, hrole, writeParamTypespecStr, hinfo]
    subst hcore
    exact congrArg some htype
  · rw [flattenArg, hrole, htext]
  · rw [unflattenArg, hrole]
    refine hcast ?_
    rw [writeParamTypespecStr, nodeType_getTypespec, isFixedLength_getTypespec, hinfo, ← hcore']
    rfl

section
variable {core : TypeText} {core' : TypeText} (hcore : core.resolved = core')
  (hflat : core.pointers = 0) (hflat' : core'.pointers = 0)
include hcore hflat hflat'

/-- The address of a parameter that is the value. -/
theorem agrees_value (hattr : parm.attr = .paramIn) (htext : text.count 38 = 1) :
    Agrees parm (ccOutputIarg emitted enclosing parm) core text ⟨true, core'.pointer⟩ := by
  refine agrees_in (by rw [hattr]; decide) (congrArg some hcore.symm) ?_ ?_
  · rw [hflat, htext]
  · rw [TypeText.pointers, hflat']

/-- A pointer to the value. -/
theorem agrees_pointer (hattr : parm.attr ≠ .paramOut) (htext : text.count 38 = 0) :
    Agrees parm (ccOutputIarg emitted enclosing parm) core.pointer text ⟨false, core'.pointer⟩ := by
  refine agrees_in hattr (congrArg (some ∘ TypeText.pointer) hcore.symm) ?_ ?_
  · rw [TypeText.pointers, hflat, htext]
  · rw [TypeText.pointers, hflat']

/-- The address of a pointer to where the value is to be. -/
theorem agrees_address (hattr : parm.attr = .paramOut) (htext : text.count 38 = 1)
    (hset : simple (staticTypeCode emitted enclosing parm.typeSpec).skipAlias.kind = true ∨
      cbeTypeIsFixedLength parm.typeSpec = true)
    (hshape : Shape.ofKind (staticTypeCode emitted enclosing parm.typeSpec).skipAlias.kind
      (cbeTypeIsFixedLength parm.typeSpec) true ≠ .variable) :
    Agrees parm (ccOutputIarg emitted enclosing parm) core.pointer text
      ⟨true, core'.pointer.pointer⟩ := by
  refine agrees_out hattr (congrArg (some ∘ TypeText.pointer) hcore.symm) ?_ ?_ ?_ ?_
  · rw [TypeText.pointers, hflat, htext]
  · rw [TypeText.pointers, TypeText.pointers, hflat']
  · rw [TypeText.pointers, hflat, if_pos hset]
  · rw [TypeText.pointers, hflat, if_neg hshape]

/-- A pointer to where the ORB puts a pointer. -/
theorem agrees_set (hattr : parm.attr = .paramOut) (htext : text.count 38 = 0)
    (hsimple : simple (staticTypeCode emitted enclosing parm.typeSpec).skipAlias.kind = false)
    (hfixed : cbeTypeIsFixedLength parm.typeSpec = false)
    (hshape : Shape.ofKind (staticTypeCode emitted enclosing parm.typeSpec).skipAlias.kind
      (cbeTypeIsFixedLength parm.typeSpec) true = .variable) :
    Agrees parm (ccOutputIarg emitted enclosing parm) core.pointer.pointer text
      ⟨false, core'.pointer.pointer⟩ := by
  refine agrees_out hattr (congrArg (some ∘ TypeText.pointer ∘ TypeText.pointer) hcore.symm) ?_ ?_ ?_ ?_
  · rw [TypeText.pointers, TypeText.pointers, hflat, htext]
  · rw [TypeText.pointers, TypeText.pointers, hflat']
  · rw [TypeText.pointers, TypeText.pointers, hflat, hsimple, hfixed]
    rfl
  · rw [TypeText.pointers, TypeText.pointers, hflat, if_pos hshape]

end

theorem shape_of_simple {kind : TCKind} (h : simple kind = true) (isFixed : Bool) :
    Shape.ofKind kind isFixed true ≠ .variable := by
  revert h
  cases isFixed <;> cases kind <;> decide

theorem passed_simple {node : NodeType} (hts : nodeType forward parm.typeSpec = node)
    (hnode : node.isSimple = true)
    (hkind : simple (staticTypeCode emitted enclosing parm.typeSpec).skipAlias.kind = true) :
    Passed emitted enclosing forward parm := by
  have hne : nodeType forward parm.typeSpec ≠ .array := by
    rw [hts]
    rintro rfl
    cases hnode
  have hnode' : nodeType forward (getTypespec parm.typeSpec) = node := by
    rw [nodeType_getTypespec, hts]
  have hshape : Shape.ofKind (staticTypeCode emitted enclosing parm.typeSpec).skipAlias.kind
      (cbeTypeIsFixedLength parm.typeSpec) true ≠ .variable := shape_of_simple hkind _
  have hname := typeName_resolved parm.typeSpec
  cases hattr : parm.attr with
  | paramIn =>
    have hrole : attrToParamrole parm.attr = .dataIn := congrArg attrToParamrole hattr
    refine passed_of hrole (typeName parm.typeSpec .dataIn)
      (typeName (getTypespec parm.typeSpec) .dataIn) 0 false (ascii "(gpointer)&") ?_ rfl rfl (adjusted_typeName hne _) ?_ ?_
      (agrees_value (hname _) (pointers_typeName _ _) (pointers_typeName _ _) hattr (by decide))
    · rw [hts]
      cases node <;> first | rfl | cases hnode
    · rw [flattenRef, hnode']
      cases node <;> first | rfl | cases hnode
    · intro htypestr
      rw [unflattenRef, htypestr, hnode']
      cases node <;> first | rfl | cases hnode
  | paramInout =>
    have hrole : attrToParamrole parm.attr = .dataInout := congrArg attrToParamrole hattr
    refine passed_of hrole (typeName parm.typeSpec .dataInout)
      (typeName (getTypespec parm.typeSpec) .dataInout) 1 false (ascii "") ?_ rfl rfl rfl ?_ ?_
      (agrees_pointer (hname _) (pointers_typeName _ _) (pointers_typeName _ _) (by simp [hattr])
        (by decide))
    · rw [hts]
      cases node <;> first | rfl | cases hnode
    · rw [flattenRef, hnode']
      cases node <;> first | rfl | cases hnode
    · intro htypestr
      rw [unflattenRef, htypestr, hnode']
      cases node <;> first | rfl | cases hnode
  | paramOut =>
    have hrole : attrToParamrole parm.attr = .dataOut := congrArg attrToParamrole hattr
    refine passed_of hrole (typeName parm.typeSpec .dataOut)
      (typeName (getTypespec parm.typeSpec) .dataOut) 1 false (ascii "&") ?_ rfl rfl rfl ?_ ?_
      (agrees_address (hname _) (pointers_typeName _ _) (pointers_typeName _ _) hattr (by decide)
        (.inl hkind) hshape)
    · rw [hts]
      cases node <;> first | rfl | cases hnode
    · rw [flattenRef, hnode']
      cases node <;> first | rfl | cases hnode
    · intro htypestr
      rw [unflattenRef, htypestr, hnode']
      cases node <;> first | rfl | cases hnode

/-- Structures and what is on the heap go in by a pointer. -/
theorem passed_pointer {node : NodeType} (hts : nodeType forward parm.typeSpec = node)
    (hnode : (node = .struct ∨ node = .union) ∨ node = .sequence ∨ node = .any)
    (hattr : parm.attr ≠ .paramOut) : Passed emitted enclosing forward parm := by
  have hnode' : nodeType forward (getTypespec parm.typeSpec) = node := by
    rw [nodeType_getTypespec, hts]
  have hname := typeName_resolved parm.typeSpec
  cases hin : parm.attr with
  | paramIn =>
    have hrole : attrToParamrole parm.attr = .dataIn := congrArg attrToParamrole hin
    refine passed_of hrole (typeName parm.typeSpec .dataIn)
      (typeName (getTypespec parm.typeSpec) .dataIn) 1 false (ascii "(gpointer)") ?_ rfl rfl rfl ?_ ?_
      (agrees_pointer (hname _) (pointers_typeName _ _) (pointers_typeName _ _) hattr
        (by decide))
    · rw [hts]
      rcases hnode with (rfl | rfl) | rfl | rfl <;> rfl
    · rw [flattenRef, hnode']
      rcases hnode with (rfl | rfl) | rfl | rfl <;> rfl
    · intro htypestr
      rw [unflattenRef, htypestr, hnode']
      rcases hnode with (rfl | rfl) | rfl | rfl <;> rfl
  | paramInout =>
    have hrole : attrToParamrole parm.attr = .dataInout := congrArg attrToParamrole hin
    refine passed_of hrole (typeName parm.typeSpec .dataInout)
      (typeName (getTypespec parm.typeSpec) .dataInout) 1 false (ascii "") ?_ rfl rfl rfl ?_ ?_
      (agrees_pointer (hname _) (pointers_typeName _ _) (pointers_typeName _ _) hattr
        (by decide))
    · rw [hts]
      rcases hnode with (rfl | rfl) | rfl | rfl <;> rfl
    · rw [flattenRef, hnode']
      rcases hnode with (rfl | rfl) | rfl | rfl <;> rfl
    · intro htypestr
      rw [unflattenRef, htypestr, hnode']
      rcases hnode with (rfl | rfl) | rfl | rfl <;> rfl
  | paramOut => exact absurd hin hattr

theorem passed_compound {node : NodeType} (hts : nodeType forward parm.typeSpec = node)
    (hnode : node = .struct ∨ node = .union)
    (hkind : (staticTypeCode emitted enclosing parm.typeSpec).skipAlias.kind = .struct ∨
      (staticTypeCode emitted enclosing parm.typeSpec).skipAlias.kind = .union) :
    Passed emitted enclosing forward parm := by
  have hnode' : nodeType forward (getTypespec parm.typeSpec) = node := by
    rw [nodeType_getTypespec, hts]
  have hname := typeName_resolved parm.typeSpec
  by_cases hattr : parm.attr = .paramOut
  · have hrole : attrToParamrole parm.attr = .dataOut := congrArg attrToParamrole hattr
    have hfixed' : cbeTypeIsFixedLength (getTypespec parm.typeSpec) = cbeTypeIsFixedLength parm.typeSpec :=
      isFixedLength_getTypespec _
    cases hfixed : cbeTypeIsFixedLength parm.typeSpec with
    | true =>
      rw [hfixed] at hfixed'
      refine passed_of hrole (typeName parm.typeSpec .dataOut)
        (typeName (getTypespec parm.typeSpec) .dataOut) 1 false (ascii "&") ?_ rfl rfl rfl ?_ ?_
        (agrees_address (hname _) (pointers_typeName _ _) (pointers_typeName _ _) hattr (by decide)
          (.inr hfixed) ?_)
      · rw [hts, hfixed]
        rcases hnode with rfl | rfl <;> rfl
      · rw [flattenRef, hnode', hfixed']
        rcases hnode with rfl | rfl <;> rfl
      · intro htypestr
        rw [unflattenRef, htypestr, hnode', hfixed']
        rcases hnode with rfl | rfl <;> rfl
      · rw [hfixed]
        rcases hkind with hkind | hkind <;> rw [hkind] <;> decide
    | false =>
      rw [hfixed] at hfixed'
      refine passed_of hrole (typeName parm.typeSpec .dataOut)
        (typeName (getTypespec parm.typeSpec) .dataOut) 2 false (ascii "") ?_ rfl rfl rfl ?_ ?_
        (agrees_set (hname _) (pointers_typeName _ _) (pointers_typeName _ _) hattr (by decide) ?_
          hfixed ?_)
      · rw [hts, hfixed]
        rcases hnode with rfl | rfl <;> rfl
      · rw [flattenRef, hnode', hfixed']
        rcases hnode with rfl | rfl <;> rfl
      · intro htypestr
        rw [unflattenRef, htypestr, hnode', hfixed']
        rcases hnode with rfl | rfl <;> rfl
      · rcases hkind with hkind | hkind <;> rw [hkind] <;> decide
      · rw [hfixed]
        rcases hkind with hkind | hkind <;> rw [hkind] <;> decide
  · exact passed_pointer hts (.inl hnode) hattr

theorem passed_heap {node : NodeType} (hts : nodeType forward parm.typeSpec = node)
    (hnode : node = .sequence ∨ node = .any) (hfixed : cbeTypeIsFixedLength parm.typeSpec = false)
    (hkind : (staticTypeCode emitted enclosing parm.typeSpec).skipAlias.kind = .sequence ∨
      (staticTypeCode emitted enclosing parm.typeSpec).skipAlias.kind = .any) :
    Passed emitted enclosing forward parm := by
  have hnode' : nodeType forward (getTypespec parm.typeSpec) = node := by
    rw [nodeType_getTypespec, hts]
  have hname := typeName_resolved parm.typeSpec
  by_cases hattr : parm.attr = .paramOut
  · have hrole : attrToParamrole parm.attr = .dataOut := congrArg attrToParamrole hattr
    refine passed_of hrole (typeName parm.typeSpec .dataOut)
      (typeName (getTypespec parm.typeSpec) .dataOut) 2 false (ascii "") ?_ rfl rfl rfl ?_ ?_
      (agrees_set (hname _) (pointers_typeName _ _) (pointers_typeName _ _) hattr (by decide) ?_
        hfixed ?_)
    · rw [hts]
      rcases hnode with rfl | rfl <;> rfl
    · rw [flattenRef, hnode']
      rcases hnode with rfl | rfl <;> rfl
    · intro htypestr
      rw [unflattenRef, htypestr, hnode']
      rcases hnode with rfl | rfl <;> rfl
    · rcases hkind with hkind | hkind <;> rw [hkind] <;> decide
    · rw [hfixed]
      rcases hkind with hkind | hkind <;> rw [hkind] <;> decide
  · exact passed_pointer hts (.inr hnode) hattr

theorem passed_array (hp : Parameter parm.typeSpec) (hts : nodeType forward parm.typeSpec = .array)
    (hkind : (staticTypeCode emitted enclosing parm.typeSpec).skipAlias.kind = .array) :
    Passed emitted enclosing forward parm := by
  have hnode' : nodeType forward (getTypespec parm.typeSpec) = .array := by
    rw [nodeType_getTypespec, hts]
  have hname : ∀ role, (typeName parm.typeSpec role).slice.resolved =
      (typeName (getTypespec parm.typeSpec) role).slice :=
    fun role => congrArg TypeText.slice (typeName_resolved parm.typeSpec role)
  cases hattr : parm.attr with
  | paramIn =>
    have hrole : attrToParamrole parm.attr = .dataIn := congrArg attrToParamrole hattr
    refine passed_of hrole (typeName parm.typeSpec .dataIn)
      (typeName (getTypespec parm.typeSpec) .dataIn) 0 false (ascii "(gpointer)") ?_ rfl rfl (adjusted_array hp hts _) ?_ ?_
      (agrees_pointer (hname _) rfl rfl (by simp [hattr]) (by decide))
    · rw [hts]
      rfl
    · rw [flattenRef, hnode']
    · intro htypestr
      rw [unflattenRef, htypestr, hnode']
      rfl
  | paramInout =>
    have hrole : attrToParamrole parm.attr = .dataInout := congrArg attrToParamrole hattr
    refine passed_of hrole (typeName parm.typeSpec .dataInout)
      (typeName (getTypespec parm.typeSpec) .dataInout) 0 false (ascii "") ?_ rfl rfl (adjusted_array hp hts _) ?_ ?_
      (agrees_pointer (hname _) rfl rfl (by simp [hattr]) (by decide))
    · rw [hts]
      rfl
    · rw [flattenRef, hnode']
    · intro htypestr
      rw [unflattenRef, htypestr, hnode']
      rfl
  | paramOut =>
    have hrole : attrToParamrole parm.attr = .dataOut := congrArg attrToParamrole hattr
    have hfixed' : cbeTypeIsFixedLength (getTypespec parm.typeSpec) = cbeTypeIsFixedLength parm.typeSpec :=
      isFixedLength_getTypespec _
    cases hfixed : cbeTypeIsFixedLength parm.typeSpec with
    | true =>
      rw [hfixed] at hfixed'
      refine passed_of hrole (typeName parm.typeSpec .dataOut)
        (typeName (getTypespec parm.typeSpec) .dataOut) 0 false (ascii "&") ?_ rfl rfl (adjusted_array hp hts _) ?_ ?_
        (agrees_address (hname _) rfl rfl hattr (by decide) (.inr hfixed) ?_)
      · rw [hts, hfixed]
        rfl
      · rw [flattenRef, hnode', hfixed']
        rfl
      · intro htypestr
        rw [unflattenRef, htypestr, hnode', hfixed']
        rfl
      · rw [hfixed, hkind]
        decide
    | false =>
      rw [hfixed] at hfixed'
      refine passed_of hrole (typeName parm.typeSpec .dataOut).slice
        (typeName (getTypespec parm.typeSpec) .dataOut).slice 2 true (ascii "") ?_ rfl rfl rfl ?_ ?_
        (agrees_set (hname _) rfl rfl hattr (by decide) ?_ hfixed ?_)
      · rw [hts, hfixed]
        rfl
      · rw [flattenRef, hnode', hfixed']
        rfl
      · intro htypestr
        rw [unflattenRef, htypestr, hnode', hfixed']
        rfl
      · rw [hkind]
        decide
      · rw [hfixed, hkind]
        decide

end

end ORBit2.Indirection
