import ORBit2.DynAnyValues
import ORBit2.Base.Runs

/-! DynAny objects (dynany.c). A DynAny without parent owns its value, the others point into the
value of their parent. An object has one reference, and a client calls no operation on a reference
it has released. -/

set_option autoImplicit false

namespace ORBit2.Dynamic

open Runs Storage Storage.Store

/-- A place in memory: a block and the way into it. -/
structure Addr where
  block : Nat
  path : List Part
  deriving DecidableEq, Repr

def Addr.part (a : Addr) (p : Part) : Addr := ⟨a.block, a.path ++ [p]⟩

structure CorbaAny where
  type : CTypeCode
  value : Option Addr
  release : Bool

structure DynAny where
  any : Option CorbaAny
  idx : Int
  children : List Nat
  parentIdx : Int
  parent : Option Nat

/-- What there is, by address: DynAnys and blocks, with the TypeCode that `ORBit_alloc_by_tc` puts
in front of a block. -/
structure Heap where
  dynanys : Nat → Option DynAny
  blocks : Nat → Option (CTypeCode × Stored)
  next : Nat

def Heap.start : Heap := ⟨fun _ => none, fun _ => none, 0⟩

/-- An any of the client. -/
structure ClientAny where
  type : CTypeCode
  value : Stored
  wellFormed : type.wellFormed = true
  typed : hasType type value = true

/-- What an operation raises. -/
inductive Exception where
  | badParam
  | objectNotExist
  | typeMismatch
  | invalidValue
  deriving DecidableEq, Repr

inductive Answer where
  | done
  | flag (b : Bool)
  | object (d : Nat)
  | nil
  | content (octets : List UInt8)
  | raised (e : Exception)
  deriving DecidableEq, Repr

namespace Heap

def set (h : Heap) (d : Nat) (x : DynAny) : Heap :=
  { h with dynanys := Function.update h.dynanys d (some x) }

@[grind =] def dynany (h : Heap) (d : Nat) : Except Stop DynAny :=
  match h.dynanys d with
  | some x => .ok x
  | none => .error .freedDynAny

def read (h : Heap) (a : Addr) : Except Stop Stored :=
  match h.blocks a.block with
  | some (_, v) =>
      match v.follow a.path with
      | some u => .ok u
      | none => .error .freedValue
  | none => .error .freedValue

def write (h : Heap) (a : Addr) (w : Stored) : Except Stop Heap :=
  match h.blocks a.block with
  | some (tc, v) =>
      match v.follow a.path with
      | some _ => .ok { h with blocks := Function.update h.blocks a.block (some (tc, v.put a.path w)) }
      | none => .error .freedValue
  | none => .error .freedValue

/-- `ORBit_free` of a value. -/
@[grind =] def free (h : Heap) (value : Option Addr) : Except Stop Heap :=
  match value with
  | none => .ok h
  | some a =>
      match h.blocks a.block with
      | some _ => .ok { h with blocks := Function.update h.blocks a.block none }
      | none => .error .freedValue

/-- `ORBit_alloc_by_tc` and what is stored there; there is no block for a type without size. -/
def allocate (h : Heap) (tc : CTypeCode) (v : Stored) : Option Addr × Heap :=
  if tc.gatherAllocInfo = 0 then (none, h)
  else
    (some ⟨h.next, []⟩,
      { h with blocks := Function.update h.blocks h.next (some (tc, v)), next := h.next + 1 })

/-- `ORBit_copy_value`. -/
def copyValue (h : Heap) (tc : CTypeCode) : Option Stored → Except Stop (Option Addr × Heap)
  | none => .ok (none, h)
  | some v => do
      let (v', next') ← copyValueCore tc h.next v
      .ok ({ h with next := next' }.allocate tc v')

end Heap

/-- `DYNANY_TYPE_SINGLE`, `CORBA_tk_fixed` and `CORBA_tk_enum`. -/
def single : TCKind → Bool
  | .struct | .except | .union | .sequence | .array | .alias | .value | .valueBox | .native
  | .abstractInterface => false
  | _ => true

/-- The first part of `dynany_invalidate`, for `invalidate_cur`. -/
def unlink (h : Heap) (d : Nat) : Except Stop Heap := do
  let x ← h.dynany d
  match x.any with
  | none => .error .wild
  | some any =>
      match x.parent with
      | some p =>
          let y ← h.dynany p
          if any.release then .error .aborted
          else
            .ok ((h.set p { y with children := y.children.erase d }).set d
              { x with any := none, parent := none })
      | none =>
          let h ← if any.release then h.free any.value else .ok h
          .ok (h.set d { x with any := none })

/-- The loop of `dynany_invalidate`. -/
@[grind =] def invalidateChildren : Nat → Heap → Nat → Except Stop Heap
  | 0, _, _ => .error .endless
  | fuel + 1, h, d => do
      let x ← h.dynany d
      match x.children with
      | [] => .ok h
      | c :: _ =>
          let h ← unlink h c
          let h ← invalidateChildren fuel h c
          invalidateChildren fuel h d

/-- `dynany_invalidate`. -/
def invalidate (h : Heap) (d : Nat) (invalidateCur : Bool) : Except Stop Heap := do
  let h ← if invalidateCur then unlink h d else .ok h
  invalidateChildren (h.next + 1) h d

/-- `DynamicAny_DynAny_release_fn`. -/
def releaseFn (h : Heap) (d : Nat) : Except Stop Heap := do
  let h ← invalidate h d false
  let x ← h.dynany d
  let h ← match x.any with
    | some any => if any.release then h.free any.value else .ok h
    | none => .ok h
  .ok { h with dynanys := Function.update h.dynanys d none }

/-- `dynany_get_cur_type`. -/
def getCurType (any : CorbaAny) (idx : Int) : Option CTypeCode :=
  let tc := any.type.skipAlias
  match tc.kind with
  | .sequence | .array => some tc.element
  | .struct | .except => if 0 ≤ idx then tc.subtypes[idx.toNat]? else none
  | .union => if idx = 0 then tc.discriminator else none
  | kind => if single kind then some tc else none

/-- `dynany_get_value`; `none` is `NULL`, with an exception. -/
def getValue (h : Heap) (any : CorbaAny) (idx : Int) : Except Stop (Option Addr) :=
  let tc := any.type.skipAlias
  if single tc.kind then .ok any.value
  else if idx < 0 then .ok none
  else
    match tc.kind with
    | .sequence =>
        match any.value with
        | none => .ok none
        | some a => do
            match ← h.read a with
            | .buffer _ stamp es =>
                .ok (if idx.toNat < es.length ∧ tc.element.gatherAllocInfo ≠ 0 then
                  some (a.part (.element stamp idx.toNat)) else none)
            | _ => .error .wild
    | .array => .ok (any.value.map (·.part (.member idx.toNat)))
    -- the walk over the members begins with subtypes [0], which a struct may not have
    | .struct | .except =>
        if idx.toNat < tc.subtypes.length then .ok (any.value.map (·.part (.member idx.toNat)))
        else .error .wild
    | _ => .ok none

/-- `dynany_create` with a parent. -/
def createChild (h : Heap) (type : Option CTypeCode) (value : Option Addr) (parent : Nat) :
    Except Stop (Answer × Heap) :=
  match type with
  | none => .ok (.raised .badParam, h)
  | some tc => do
      let y ← h.dynany parent
      match value with
      | none => .error .aborted
      | some a =>
          let x : DynAny := ⟨some ⟨tc, some a, false⟩, 0, [], y.idx, some parent⟩
          let h' : Heap := { h with next := h.next + 1 }
          .ok (.object h.next,
            (h'.set parent { y with children := h.next :: y.children }).set h.next x)

/-- `dynany_create` without a parent, and without a value for the default. -/
def createRoot (h : Heap) (tc : CTypeCode) (value : Option Stored) :
    Except Stop (Answer × Heap) := do
  let d := h.next
  let h : Heap := { h with next := h.next + 1 }
  let (value, h) ← match value with
    | some v => h.copyValue tc (some v)
    | none => .ok (h.allocate tc (initDefault tc))
  .ok (.object d, h.set d ⟨some ⟨tc, value, true⟩, 0, [], 0, none⟩)

/-- A number as a `CORBA_long`. -/
def long (n : Int) : Int := n.bmod (2^32)

/-- `DynamicAny_DynAny_seek`: the cursor and the result. -/
def seek (h : Heap) (any : CorbaAny) (index : Int) : Except Stop (Int × Bool) :=
  let index := long index
  let tc := any.type.skipAlias
  let within (n : Nat) : Int × Bool := if index < n ∧ 0 ≤ index then (index, true) else (-1, false)
  if single tc.kind then .ok (-1, index == -1)
  else
    match tc.kind with
    | .array => .ok (within tc.info.length)
    | .struct | .except => .ok (within tc.subtypes.length)
    | .sequence =>
        match any.value with
        | none => .ok (-1, false)
        | some a => do
            match ← h.read a with
            -- the index is compared as an unsigned number
            | .buffer _ _ es =>
                .ok (if index % 2^32 < es.length then (index, true) else (-1, false))
            | _ => .error .wild
    | .union => .ok (if index < 0 ∨ 1 < index then (-1, false) else (index, true))
    | _ => .error .aborted

/-- `DynamicAny_DynAny_component_count`. -/
def componentCount (h : Heap) (any : CorbaAny) : Except Stop Nat :=
  let tc := any.type.skipAlias
  match tc.kind with
  | .sequence =>
      match any.value with
      | none => .ok 0
      | some a => do
          match ← h.read a with
          | .buffer _ _ es => .ok es.length
          | _ => .error .wild
  | .array => .ok tc.info.length
  | .struct | .except => .ok tc.subtypes.length
  | .union => .ok 0
  | kind => if single kind then .ok 0 else .error .aborted

/-- `DynamicAny_DynAny_current_component`. -/
def currentComponent (h : Heap) (d : Nat) (x : DynAny) (any : CorbaAny) :
    Except Stop (Answer × Heap) :=
  let tc := any.type.skipAlias
  if x.idx < 0 then .ok (.nil, h)
  else if tc.kind = .enum ∨ (tc.kind = .except ∧ tc.subtypes = []) then
    .ok (.raised .typeMismatch, h)
  else if single tc.kind ∨ composite tc.kind ∨ tc.kind = .union then do
    let value ← getValue h any x.idx
    createChild h (getCurType any x.idx) value d
  else .error .aborted

/-- The types the `get` functions, and but for `wstring` the `insert` functions, are for. -/
inductive Basic where
  | short | long | ushort | ulong | float | double | longdouble | boolean | char | wchar | octet
  | any | typecode | reference | string | wstring | longlong | ulonglong
  deriving DecidableEq, Repr

def Basic.tc : Basic → CTypeCode
  | .short => .basic .short
  | .long => .basic .long
  | .ushort => .basic .ushort
  | .ulong => .basic .ulong
  | .float => .basic .float
  | .double => .basic .double
  | .longdouble => .basic .longdouble
  | .boolean => .basic .boolean
  | .char => .basic .char
  | .wchar => .basic .wchar
  | .octet => .basic .octet
  | .any => .basic .any
  | .typecode => .basic .typeCode
  | .reference =>
      .node ⟨.objref, 0, "Object".toList.map Char.toUInt8,
        "IDL:omg.org/CORBA/Object:1.0".toList.map Char.toUInt8, [], [], -1, 0, 0⟩ [] none
  | .string => .basic .string
  | .wstring => .basic .wstring
  | .longlong => .basic .longlong
  | .ulonglong => .basic .ulonglong

/-- `dynany_type_mismatch`. -/
def typeMismatch (any : CorbaAny) (idx : Int) (assign : CTypeCode) : Except Stop Bool :=
  match getCurType any idx with
  | none => .ok true
  | some tc =>
      match tc.equal assign with
      | some equal => .ok (!equal)
      | none => .error .aborted

/-- The `insert` functions. That for anys passes the address of its argument, a pointer, for the
any. -/
def insert (h : Heap) (x : DynAny) (any : CorbaAny) (b : Basic) (content : List UInt8) :
    Except Stop (Answer × Heap) := do
  if ← typeMismatch any x.idx b.tc then .ok (.raised .typeMismatch, h)
  else
    match ← getValue h any x.idx with
    | none => .ok (.raised .invalidValue, h)
    | some a =>
        if b = .any then .error .wild
        else do
          let h ← h.write a (.leaf content)
          .ok (.done, h)

/-- The `get` functions. That for anys copies an any into a pointer. -/
def get (h : Heap) (x : DynAny) (any : CorbaAny) (b : Basic) : Except Stop (Answer × Heap) := do
  if ← typeMismatch any x.idx b.tc then .ok (.raised .typeMismatch, h)
  else
    match ← getValue h any x.idx with
    | none => .ok (.raised .invalidValue, h)
    | some a =>
        if b = .any then .error .wild
        else
          match ← h.read a with
          | .leaf content => .ok (.content content, h)
          | _ => .error .wild

/-- `dynany_sequence_realloc_to`; `none` is `FALSE`. The elements get the type `subtypes [0]`,
which for an alias is that of the sequence, and all the old ones are copied, also to a shorter
buffer. -/
def sequenceReallocTo (h : Heap) (a : Addr) (type : CTypeCode) (len : Nat) :
    Except Stop (Option Heap) :=
  if len = 0 ∨ type.element.gatherAllocInfo = 0 then .ok none
  else if type.kind = .alias then .error .wild
  else do
    match ← h.read a with
    | .buffer maximum _ es =>
        if len < es.length then .error .wild
        else
          let (es', next') ← copyEach type.element (h.next + 1) es
          let rest := List.replicate (len - es.length) (initDefault type.element)
          let h ← { h with next := next' }.write a (.buffer maximum h.next (es' ++ rest))
          .ok (some h)
    | _ => .error .wild

/-- `DynamicAny_DynSequence_set_length`. What it does for a shorter sequence it does with a buffer
that has been written over its end. -/
def setLength (h : Heap) (d : Nat) (x : DynAny) (any : CorbaAny) (length : Nat) :
    Except Stop (Answer × Heap) :=
  if any.type.skipAlias.kind ≠ .sequence then .ok (.raised .typeMismatch, h)
  else
    match any.value with
    | none => .ok (.done, h)
    | some a => do
        match ← h.read a with
        | .buffer maximum _ es =>
            if length = es.length then .ok (.done, h)
            else if maximum ≠ 0 ∧ maximum < length then .ok (.raised .invalidValue, h)
            else
              match ← sequenceReallocTo h a any.type length with
              | none => .ok (.done, h)
              | some h =>
                  .ok (.done, if x.idx = -1 then h.set d { x with idx := long es.length } else h)
        | _ => .error .wild

/-- The first loop of `DynamicAny_DynSequence_set_elements`. -/
@[grind =] def checkElements (sub : CTypeCode) : Nat → List ClientAny → Except Stop Bool
  | 0, _ | _, [] => .ok true
  | n + 1, a :: value =>
      match sub.equal a.type with
      | some true => checkElements sub n value
      | some false => .ok false
      | none => .error .aborted

/-- `DynamicAny_DynSequence_set_elements`. -/
def setElements (h : Heap) (d : Nat) (any : CorbaAny) (value : List ClientAny) :
    Except Stop (Answer × Heap) :=
  if any.type.skipAlias.kind ≠ .sequence then .ok (.raised .typeMismatch, h)
  else
    match any.value with
    | none => .ok (.done, h)
    | some a => do
        match ← h.read a with
        | .buffer _ _ es =>
            if ← checkElements any.type.element es.length value then
              let h ← invalidate h d false
              match ← h.read a with
              | .buffer maximum stamp es =>
                  -- only as many elements have been looked at as there are in the sequence
                  if es.length < value.length ∨ (any.type.kind = .alias ∧ value ≠ []) then
                    .error .wild
                  else
                    let (vs, next') ← copyEach any.type.element h.next (value.map (·.value))
                    let h ← { h with next := next' }.write a
                      (.buffer maximum stamp (vs ++ es.drop vs.length))
                    .ok (.done, h)
              | _ => .error .wild
            else .ok (.raised .invalidValue, h)
        | _ => .error .wild

/-- The first loop of `DynamicAny_DynStruct_set_members`. -/
@[grind =] def checkMembers : List (List UInt8) → List CTypeCode → List (List UInt8 × ClientAny) →
    Except Stop (Option Exception)
  | _, _, [] => .ok none
  | name :: subnames, sub :: subtypes, (id, a) :: value =>
      if id ≠ name then .ok (some .typeMismatch)
      else
        match a.type.equal sub with
        | some true => checkMembers subnames subtypes value
        | some false => .ok (some .invalidValue)
        | none => .error .aborted
  | _, _, _ => .error .wild

/-- `DynamicAny_DynStruct_set_members`. The names are looked for in the TypeCode of the any, which
as an alias has none. -/
def setMembers (h : Heap) (d : Nat) (any : CorbaAny) (value : List (List UInt8 × ClientAny)) :
    Except Stop (Answer × Heap) :=
  if any.type.skipAlias.kind ≠ .struct then .ok (.raised .typeMismatch, h)
  else if value.length ≠ any.type.subtypes.length then .ok (.raised .typeMismatch, h)
  else do
    let h ← invalidate h d false
    if any.type.kind = .alias then .error .wild
    else
      match ← checkMembers any.type.info.subnames any.type.subtypes value with
      | some e => .ok (.raised e, h)
      | none =>
          match any.value with
          | none => .ok (.done, h)
          | some a =>
              let (ms, next') ← copyMembers any.type.subtypes h.next (value.map (·.2.value))
              let h ← { h with next := next' }.write a (.record ms)
              .ok (.done, h)

/-- Where `DynamicAny_DynAny_from_any` copies from: an any of the client or that of a DynAny. -/
inductive Source where
  | client (any : ClientAny)
  | dynany (src : Nat) (any : CorbaAny)

@[grind =] def Source.type : Source → CTypeCode
  | .client any => any.type
  | .dynany _ any => any.type

/-- The value the copy reads, once the destination has lost its own. -/
@[grind =] def Source.value (h : Heap) (dest : Nat) : Source → Except Stop (Option Stored)
  | .client any => .ok (if any.type.gatherAllocInfo = 0 then none else some any.value)
  | .dynany src any =>
      if src = dest ∧ any.release = true then .error .freedAny
      else
        match any.value with
        | none => .ok none
        | some a => (h.read a).map some

/-- `DynamicAny_DynAny_from_any`. -/
def fromAny (h : Heap) (d : Nat) (any : CorbaAny) (source : Source) :
    Except Stop (Answer × Heap) :=
  match any.type.equal source.type with
  | none => .error .aborted
  | some false => .ok (.raised .typeMismatch, h)
  | some true => do
      let h ← invalidate h d true
      let v ← source.value h d
      let (value, h) ← h.copyValue source.type v
      let x ← h.dynany d
      .ok (.done, h.set d { x with any := some ⟨source.type, value, true⟩ })

/-- `DynamicAny_DynAny_copy`. -/
def copy (h : Heap) (x : DynAny) (any : CorbaAny) : Except Stop (Answer × Heap) :=
  match x.parent with
  | some p => createChild h (some any.type) any.value p
  | none =>
      match any.value with
      | none => createRoot h any.type none
      | some a => do createRoot h any.type (some (← h.read a))

/-- The calls of clients. -/
inductive Event where
  | createDynAny (value : ClientAny)
  | createFromTypeCode (type : { tc : CTypeCode // tc.wellFormed = true })
  | seek (d : Nat) (index : Int)
  | next (d : Nat)
  | rewind (d : Nat)
  | currentComponent (d : Nat)
  | insert (d : Nat) (b : { b : Basic // b ≠ .wstring }) (content : List UInt8)
  | get (d : Nat) (b : Basic)
  | setLength (d : Nat) (length : Nat)
  | setElements (d : Nat) (value : List ClientAny)
  | setMembers (d : Nat) (value : List (List UInt8 × ClientAny))
  | fromAny (d : Nat) (value : ClientAny)
  | assign (dest src : Nat)
  | copy (d : Nat)
  | release (d : Nat)

/-- A call on an object, if the client has it; most begin with a look at its any. -/
def onAny (h : Heap) (d : Nat) (f : DynAny → CorbaAny → Except Stop (Answer × Heap)) :
    Except Stop (Answer × Heap) :=
  match h.dynanys d with
  | none => .ok (.nil, h)
  | some x =>
      match x.any with
      | none => .ok (.raised .objectNotExist, h)
      | some any => f x any

def seekTo (h : Heap) (d : Nat) (x : DynAny) (any : CorbaAny) (index : Int) :
    Except Stop (Answer × Heap) := do
  let (idx, found) ← seek h any index
  .ok (.flag found, h.set d { x with idx := idx })

def call (h : Heap) : Event → Except Stop (Answer × Heap)
  | .createDynAny a =>
      createRoot h a.type (if a.type.gatherAllocInfo = 0 then none else some a.value)
  | .createFromTypeCode type => createRoot h type none
  | .seek d index => onAny h d fun x any => seekTo h d x any index
  | .next d => onAny h d fun x any => seekTo h d x any (x.idx + 1)
  | .rewind d => onAny h d fun x any => seekTo h d x any 0
  | .currentComponent d => onAny h d fun x any => currentComponent h d x any
  | .insert d b content => onAny h d fun x any => insert h x any b content
  | .get d b => onAny h d fun x any => get h x any b
  | .setLength d length => onAny h d fun x any => setLength h d x any length
  | .setElements d value => onAny h d fun _ any => setElements h d any value
  | .setMembers d value => onAny h d fun _ any => setMembers h d any value
  | .fromAny d value => onAny h d fun _ any => fromAny h d any (.client value)
  | .assign dest src =>
      match h.dynanys src with
      | none => .ok (.nil, h)
      | some y =>
          match y.any with
          | none => .ok (.raised .badParam, h)
          | some other => onAny h dest fun _ any => fromAny h dest any (.dynany src other)
  | .copy d => onAny h d fun x any => copy h x any
  | .release d =>
      match h.dynanys d with
      | none => .ok (.nil, h)
      | some _ => do
          let h ← releaseFn h d
          .ok (.done, h)

/-- The state behind a call; a program that has stopped stays where it is. -/
def step (s : Except Stop Heap) (e : Event) : Except Stop Heap :=
  match s with
  | .error r => .error r
  | .ok h => (call h e).map (·.2)

end ORBit2.Dynamic
