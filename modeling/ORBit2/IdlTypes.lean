import ORBit2.TypeCodeWire

/-! IDL types as the syntax tree of an IDL file has them, the TypeCodes that the IDL compiler
emits for them (`cbe_tc_generate`), and the C types it declares. A name stands in the tree
for the definition it refers to. Constant expressions have been evaluated by the parser. -/

set_option autoImplicit false

namespace ORBit2

/-- `IDLN_IDENT`: the identifier, its repository id, and its qualified name with `_` between
the parts. -/
structure Ident where
  str : List UInt8
  repoId : List UInt8
  qstring : List UInt8
  deriving DecidableEq, Repr

/-- The declspec of an interface: PIDL, or something else. -/
structure Declspec where
  pidl : Bool
  other : Bool
  deriving DecidableEq, Repr

inductive IntegerType where
  | short | long | longlong
  deriving DecidableEq, Repr

inductive FloatType where
  | float | double | longdouble
  deriving DecidableEq, Repr

/-- A label of a union; `ident` is an enumerator of the switch type. -/
inductive Const where
  | boolean (value : Bool)
  | char (value : UInt8)
  | wideChar (value : Nat)
  | integer (value : Int)
  | ident (str : List UInt8)
  deriving DecidableEq, Repr

inductive Declarator where
  | ident (name : Ident)
  | array (name : Ident) (sizes : List Nat)
  deriving DecidableEq, Repr

def Declarator.name : Declarator → Ident
  | .ident name => name
  | .array name _ => name

mutual

/-- A node where a type stands. `typedef` is the name of a declarator of an
`IDLN_TYPE_DCL`, and `recursiveSequence` is a sequence of the struct or union in whose
definition it stands. -/
inductive IdlType where
  | integer (signed : Bool) (type : IntegerType)
  | float (type : FloatType)
  | char | wideChar | boolean | octet | any | object | typeCode
  | string (bound : Option Nat)
  | wideString (bound : Option Nat)
  | enum (ident : Ident) (enumerators : List (List UInt8))
  | interface (ident : Ident) (declspec : Declspec)
  | struct (ident : Ident) (members : List Member)
  | except (ident : Ident) (members : List Member)
  | union (ident : Ident) (switch : IdlType) (body : List CaseStmt)
  | sequence (element : IdlType) (bound : Option Nat)
  | recursiveSequence (element : Ident) (bound : Option Nat)
  | typedef (dcl : Declarator) (typeSpec : IdlType)

/-- `IDLN_MEMBER`, with one declarator or more. -/
inductive Member where
  | mk (typeSpec : IdlType) (dcl : Declarator) (dcls : List Declarator)

/-- `IDLN_CASE_STMT`, with one label or more; the label `default` is `none`. -/
inductive CaseStmt where
  | mk (label : Option Const) (labels : List (Option Const)) (typeSpec : IdlType)
      (dcl : Declarator)

end

/-- The kind of an integer and of a floating point type. -/
def IntegerType.kind : (signed : Bool) → IntegerType → TCKind
  | true, .short => .short
  | false, .short => .ushort
  | true, .long => .long
  | false, .long => .ulong
  | true, .longlong => .longlong
  | false, .longlong => .ulonglong

def FloatType.kind : FloatType → TCKind
  | .float => .float
  | .double => .double
  | .longdouble => .longdouble

/-! ### The static TypeCodes -/

def ascii (s : String) : List UInt8 := s.toList.map fun c => UInt8.ofNat c.toNat

/-- `orbit_cbe_get_typespec_str`. -/
def IdlType.typespecStr : IdlType → List UInt8
  | .integer signed type =>
      ascii <| "CORBA_" ++ (if signed then "" else "unsigned_") ++
        match type with
        | .short => "short"
        | .long => "long"
        | .longlong => "long_long"
  | .float .float => ascii "CORBA_float"
  | .float .double => ascii "CORBA_double"
  | .float .longdouble => ascii "CORBA_long_double"
  | .char => ascii "CORBA_char"
  | .wideChar => ascii "CORBA_wchar"
  | .boolean => ascii "CORBA_boolean"
  | .octet => ascii "CORBA_octet"
  | .any => ascii "CORBA_any"
  | .object => ascii "CORBA_Object"
  | .typeCode => ascii "CORBA_TypeCode"
  | .string _ => ascii "CORBA_string"
  | .wideString _ => ascii "CORBA_wstring"
  | .enum ident _ | .interface ident _ | .struct ident _ | .except ident _ | .union ident _ _ =>
      ident.qstring
  | .sequence element _ => ascii "CORBA_sequence_" ++ element.typespecStr
  | .recursiveSequence element _ => ascii "CORBA_sequence_" ++ element.qstring
  | .typedef dcl _ => dcl.name.qstring

/-- `DEF_TC_BASIC`. -/
def basicTypeCode (kind : TCKind) (name : String) : CTypeCode :=
  .node ⟨kind, 0, ascii name, ascii ("IDL:omg.org/CORBA/" ++ name ++ ":1.0"), [], [], -1, 0, 0⟩
    [] none

/-- The arrays of `orbit_output_typecode` for a declarator with sizes. -/
def nestArrays (element : CTypeCode) : List Nat → CTypeCode
  | [] => element
  | size :: sizes => .node ⟨.array, size, [], [], [], [], -1, 0, 0⟩ [nestArrays element sizes] none

/-- The enumerators of a switch type. -/
def enumerators : IdlType → List (List UInt8)
  | .enum _ names => names
  | .typedef _ type => enumerators type
  | _ => []

/-- A label as the C compiler reads what `orbit_cbe_write_const` prints behind
`(CORBA_long)`; a `char` is signed. -/
def Const.cLabel (switch : IdlType) : Option Const → Int
  | none => -1
  | some (.boolean value) => if value then 1 else 0
  | some (.char value) => signed 1 value.toNat
  | some (.wideChar value) => signed 4 (value % 2^32)
  | some (.integer value) => signed 4 (unsigned 4 value)
  | some (.ident str) => (enumerators switch).idxOf str

/-- `default_index` behind the labels from `index` on. -/
def defaultIndex : (index : Nat) → (found : Int) → List (Option Const) → Int
  | _, found, [] => found
  | index, _, none :: labels => defaultIndex (index+1) index labels
  | index, found, some _ :: labels => defaultIndex (index+1) found labels

/-- The labels of a union, arm by arm. -/
def caseLabels : List CaseStmt → List (Option Const)
  | [] => []
  | .mk label labels _ _ :: body => label :: labels ++ caseLabels body

def caseNames : List CaseStmt → List (List UInt8)
  | [] => []
  | .mk label labels _ dcl :: body =>
      (label :: labels).map (fun _ => dcl.name.str) ++ caseNames body

def memberNames : List Member → List (List UInt8)
  | [] => []
  | .mk _ dcl dcls :: members => (dcl :: dcls).map (·.name.str) ++ memberNames members

/-- The declspec of the interface that a name stands for, behind aliases
(`orbit_cbe_get_typespec`). -/
def IdlType.interfaceDeclspec : IdlType → Option Declspec
  | .interface _ declspec => some declspec
  | .typedef (.ident _) type => type.interfaceDeclspec
  | _ => none

section Static
variable (emitted : List UInt8 → Nat) (enclosing : Ident → CTypeCode)

mutual

/-- `cbe_tc_generate`. Parts are referred to by C names, and of the sequences of one name the
first one met is `emitted`, with its bound; a sequence of the `enclosing` type refers to it.
A member is referred to by its type alone, also where its declarator has sizes. `Object`
stands for a member that is a PIDL interface, and for the elements of a sequence if they are
an interface with any declspec at all. -/
def staticTypeCode : IdlType → CTypeCode
  | .integer signed .short =>
      basicTypeCode (IntegerType.kind signed .short) (if signed then "short" else "unsigned_short")
  | .integer signed .long =>
      basicTypeCode (IntegerType.kind signed .long) (if signed then "long" else "unsigned_long")
  | .integer signed .longlong =>
      basicTypeCode (IntegerType.kind signed .longlong)
        (if signed then "long_long" else "unsigned_long_long")
  | .float .float => basicTypeCode .float "float"
  | .float .double => basicTypeCode .double "double"
  | .float .longdouble => basicTypeCode .longdouble "long_double"
  | .char => basicTypeCode .char "char"
  | .wideChar => basicTypeCode .wchar "wchar"
  | .boolean => basicTypeCode .boolean "boolean"
  | .octet => basicTypeCode .octet "octet"
  | .any => basicTypeCode .any "any"
  | .object => basicTypeCode .objref "Object"
  | .typeCode => basicTypeCode .typeCode "TypeCode"
  | .string _ => basicTypeCode .string "string"
  | .wideString _ => basicTypeCode .wstring "wstring"
  | .enum ident names => .node ⟨.enum, 0, ident.str, ident.repoId, names, [], -1, 0, 0⟩ [] none
  | .interface ident _ => .node ⟨.objref, 0, ident.str, ident.repoId, [], [], -1, 0, 0⟩ [] none
  | .struct ident members =>
      .node ⟨.struct, 0, ident.str, ident.repoId, memberNames members, [], -1, 0, 0⟩
        (staticMembers members) none
  | .except ident members =>
      .node ⟨.except, 0, ident.str, ident.repoId, memberNames members, [], -1, 0, 0⟩
        (staticMembers members) none
  | .union ident switch body =>
      .node ⟨.union, 0, ident.str, ident.repoId, caseNames body,
          (caseLabels body).map (Const.cLabel switch), defaultIndex 0 (-1) (caseLabels body), 0, 0⟩
        (staticArms body) (some (staticTypeCode switch))
  | .sequence element bound =>
      .node ⟨.sequence, emitted (IdlType.sequence element bound).typespecStr, [], [], [], [], -1,
        0, 0⟩
        [if element.interfaceDeclspec.any fun d => d.pidl || d.other then
            basicTypeCode .objref "Object"
          else staticTypeCode element] none
  | .recursiveSequence element bound =>
      .node ⟨.sequence, emitted (IdlType.recursiveSequence element bound).typespecStr, [], [], [],
        [], -1, 0, 0⟩ [enclosing element] none
  | .typedef (.ident ident) type =>
      .node ⟨.alias, 0, ident.str, ident.repoId, [], [], -1, 0, 0⟩ [staticTypeCode type] none
  | .typedef (.array ident sizes) type =>
      .node ⟨.alias, 0, ident.str, ident.repoId, [], [], -1, 0, 0⟩
        [nestArrays (staticTypeCode type) sizes] none

/-- The subtypes of a struct, one for each declarator. -/
def staticMembers : List Member → List CTypeCode
  | [] => []
  | .mk type dcl dcls :: members =>
      (dcl :: dcls).map (fun _ =>
          if type.interfaceDeclspec.any Declspec.pidl then basicTypeCode .objref "Object"
          else staticTypeCode type) ++ staticMembers members

/-- The subtypes of a union, one for each label. -/
def staticArms : List CaseStmt → List CTypeCode
  | [] => []
  | .mk label labels type _ :: body =>
      (label :: labels).map (fun _ => staticTypeCode type) ++ staticArms body

end
end Static

/-! ### The declarations in the header -/

/-- A C type, as far as its alignment goes. -/
inductive CType where
  | word (size : Nat)
  | array (element : CType) (length : Nat)
  | struct (fields : List CType)
  | union (fields : List CType)
  deriving Repr

mutual

/-- `_Alignof` on a 64-bit host. -/
def CType.alignof : CType → Nat
  | .word size => size
  | .array element _ => element.alignof
  | .struct fields | .union fields => CType.widest fields

def CType.widest : List CType → Nat
  | [] => 1
  | field :: fields => max field.alignof (CType.widest fields)

end

/-- `ch_output_var`: the sizes of the declarator follow its name. -/
def outputVar (type : CType) : Declarator → CType
  | .ident _ => type
  | .array _ sizes => sizes.foldr (fun size element => .array element size) type

mutual

/-- What `ch_output_types` declares for a type. -/
def IdlType.cType : IdlType → CType
  | .integer _ .short => .word 2
  | .integer _ .long => .word 4
  | .integer _ .longlong => .word 8
  | .float .float => .word 4
  | .float _ => .word 8
  | .char | .boolean | .octet => .word 1
  | .wideChar => .word 2
  | .object | .typeCode | .string _ | .wideString _ | .interface _ _ => .word 8
  | .any => .struct [.word 8, .word 8, .word 1]
  | .enum _ _ => .word 4
  | .sequence _ _ | .recursiveSequence _ _ => .struct [.word 4, .word 4, .word 8, .word 1]
  | .struct _ members | .except _ members =>
      -- a struct without members gets an int
      .struct (if members.isEmpty then [.word 4] else memberFields members)
  | .union _ switch body => .struct [switch.cType, .union (armFields body)]
  | .typedef dcl type => outputVar type.cType dcl

def memberFields : List Member → List CType
  | [] => []
  | .mk type dcl dcls :: members =>
      (dcl :: dcls).map (outputVar type.cType) ++ memberFields members

def armFields : List CaseStmt → List CType
  | [] => []
  | .mk _ _ type dcl :: body => outputVar type.cType dcl :: armFields body

end

end ORBit2
