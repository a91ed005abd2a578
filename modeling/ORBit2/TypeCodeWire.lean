import ORBit2.TypeCode
import ORBit2.CTypeCode

/-! TypeCodes on the wire: `tc_enc`, which writes them with back references to what it has
written before, and `tc_dec`, which reads them into memory piece by piece. Positions in a
message count from the end of its twelve byte header, which begins at a multiple of eight. -/

set_option autoImplicit false

namespace ORBit2
open Words

def TCKind.all : List TCKind :=
  [.null, .void, .short, .long, .ushort, .ulong, .float, .double, .boolean, .char, .octet, .any,
    .typeCode, .principal, .objref, .struct, .union, .enum, .string, .sequence, .array, .alias,
    .except, .longlong, .ulonglong, .longdouble, .wchar, .wstring, .fixed, .value, .valueBox,
    .native, .abstractInterface]

/-- The number of a kind; `CORBA_tk_last` is 33. -/
def TCKind.code (kind : TCKind) : Nat := TCKind.all.idxOf kind

theorem TCKind.all_code (kind : TCKind) : TCKind.all[kind.code]? = some kind := by
  cases kind <;> decide

theorem TCKind.code_lt (kind : TCKind) : kind.code < 33 := by cases kind <;> decide

inductive TkType where
  | empty | simple | complex
  deriving DecidableEq, Repr

/-- The first column of `tk_info`. -/
@[grind =] def TCKind.tkType : TCKind → TkType
  | .string | .wstring | .fixed => .simple
  | .objref | .struct | .union | .enum | .sequence | .array | .alias | .except => .complex
  | _ => .empty

/-- The bytes `MEMBER_LOOPER_ENC` and `MEMBER_LOOPER_DEC` give a label; `none` is the
`g_error` of a discriminator that is not in the list. -/
def TCKind.labelWidth : TCKind → Option Nat
  | .long | .enum | .ulong => some 4
  | .boolean | .char => some 1
  | .short | .ushort | .wchar => some 2
  | .longlong | .ulonglong => some 8
  | _ => none

/-- A label as the `CORBA_long` that a word of the discriminator's type is cast to. -/
def TCKind.label (discriminator : TCKind) (n : Nat) : Int :=
  match discriminator with
  | .char => signed 1 n
  | .short => signed 2 n
  | .boolean | .ushort | .wchar => n
  | _ => signed 4 (n % 2^32)

/-- The low `w` bytes of a number in two's complement. -/
def unsigned (w : Nat) (n : Int) : Nat := (n % (256 ^ w : Nat)).toNat

/-- `CORBA_tk_recursive`. -/
def tkRecursive : Nat := 0xffffffff

/-! ### Writing -/

/-- A TypeCode in memory. Nodes that look alike are told apart by their addresses. -/
inductive TCGraph where
  | node (addr : Nat) (info : TCInfo) (subtypes : List TCGraph) (discriminator : Option TCGraph)
  deriving Repr

def TCGraph.addr : TCGraph → Nat
  | .node addr _ _ _ => addr

def TCGraph.info : TCGraph → TCInfo
  | .node _ info _ _ => info

/-- A reference to a node: where the node begins, where the reference ends, and where the
innermost encapsulation around the reference begins (zero if there is none), counted from
the beginning of the header. The encoder keeps no such record. -/
structure BackRef where
  index : Nat
  stop : Nat
  start : Nat
  deriving DecidableEq, Repr

/-- What one call appends, the nodes it knows afterwards (`prior_tcs`, with their indices),
and the references it has written. -/
structure Encoded where
  bytes : List UInt8
  prior : List (Nat × Nat)
  refs : List BackRef
  deriving DecidableEq, Repr

/-- An encoder at a `message_size`; `none` is a `g_error` or a missing part. -/
def Enc : Type := (size : Nat) → (prior : List (Nat × Nat)) → Option Encoded

namespace Enc

def put (bytes : Nat → List UInt8) : Enc := fun size prior => some ⟨bytes size, prior, []⟩

def seq (p q : Enc) : Enc := fun size prior => do
  let r ← p size prior
  let r' ← q (size + r.bytes.length) r.prior
  some ⟨r.bytes ++ r'.bytes, r'.prior, r.refs ++ r'.refs⟩

def abort : Enc := fun _ _ => none

end Enc

/-- `giop_send_buffer_align`. -/
def pad (w size : Nat) : List UInt8 := List.replicate (alignUp (12 + size) w - (12 + size)) 0

/-- `CDR_put_ulong` and its kin. -/
def cdrPut (host : Endian) (w n size : Nat) : List UInt8 := pad w size ++ host.split w n

/-- `CDR_put_string`. -/
def cdrPutString (host : Endian) (str : List UInt8) (size : Nat) : List UInt8 :=
  cdrPut host 4 (str.length + 1) size ++ (str ++ [0])

/-- `GIOP_FLAG_ENDIANNESS`. -/
def endianFlag : Endian → UInt8
  | .little => 1
  | .big => 0

def encNames (host : Endian) : List (List UInt8) → Enc
  | [] => Enc.put fun _ => []
  | name :: names => (Enc.put (cdrPutString host name)).seq (encNames host names)

/-- The encoders of `tk_info`, `tc_enc_tk_objref` to `tc_enc_tk_fixed`, over what `tc_enc`
writes for `subtypes [0]`, for the discriminator, and in the loops over the members of a
struct and of a union with labels of `w` bytes. -/
def encoder (host : Endian) (info : TCInfo) (subParts : Nat) (discriminator : Option TCKind)
    (encFirst encDiscriminator encMembers : Enc) (encArms : (w : Nat) → Enc) : Enc :=
  match info.kind with
  | .objref =>
      (Enc.put (cdrPutString host info.repoId)).seq (Enc.put (cdrPutString host info.name))
  | .struct | .except =>
      (Enc.put (cdrPutString host info.repoId)).seq <|
      (Enc.put (cdrPutString host info.name)).seq <|
      (Enc.put (cdrPut host 4 subParts)).seq encMembers
  | .union =>
      (Enc.put (cdrPutString host info.repoId)).seq <|
      (Enc.put (cdrPutString host info.name)).seq <|
      encDiscriminator.seq <|
      (Enc.put (cdrPut host 4 (unsigned 4 info.defaultIndex))).seq <|
      (Enc.put (cdrPut host 4 subParts)).seq <|
      match discriminator.bind TCKind.labelWidth with
      | some w => encArms w
      | none => Enc.abort
  | .enum =>
      (Enc.put (cdrPutString host info.repoId)).seq <|
      (Enc.put (cdrPutString host info.name)).seq <|
      (Enc.put (cdrPut host 4 info.subnames.length)).seq (encNames host info.subnames)
  | .alias =>
      (Enc.put (cdrPutString host info.repoId)).seq <|
      (Enc.put (cdrPutString host info.name)).seq encFirst
  | .sequence | .array => encFirst.seq (Enc.put (cdrPut host 4 info.length))
  | .string | .wstring => Enc.put (cdrPut host 4 info.length)
  | .fixed =>
      (Enc.put (cdrPut host 2 info.digits)).seq (Enc.put (cdrPut host 2 (unsigned 2 info.scale)))
  | _ => Enc.abort

mutual

/-- `tc_enc`; the innermost encapsulation begins at `start`. -/
def tcEnc (host : Endian) (start : Nat) : TCGraph → Enc
  | .node addr info subtypes discriminator => fun size prior =>
      let align := pad 4 size
      let size := size + align.length
      if info.kind.tkType = .empty then
        some ⟨align ++ host.split 4 info.kind.code, prior, []⟩
      else
        match prior.find? (·.1 == addr) with
        | some (_, index) =>
            let len := unsigned 4 ((index : Int) - (size + 4 : Nat) - 4)
            some ⟨align ++ host.split 4 tkRecursive ++ host.split 4 len, prior,
              [⟨12 + index, 12 + size + 8, start⟩]⟩
        | none =>
            let start := if info.kind.tkType = .complex then 12 + size + 8 else start
            let body := encoder host info subtypes.length (discriminator.map fun d => d.info.kind)
              (encFirst host start subtypes) (encDiscriminator host start discriminator)
              (encMembers host start info.subnames subtypes)
              (fun w => encArms host start w info.sublabels info.subnames subtypes)
            if info.kind.tkType = .complex then do
              -- the marker is filled in when the length is known
              let r ← body (size + 9) ((addr, size) :: prior)
              some ⟨align ++ host.split 4 info.kind.code ++
                host.split 4 (1 + r.bytes.length) ++ (endianFlag host :: r.bytes),
                r.prior, r.refs⟩
            else do
              let r ← body (size + 4) ((addr, size) :: prior)
              some ⟨align ++ host.split 4 info.kind.code ++ r.bytes, r.prior, r.refs⟩

def encFirst (host : Endian) (start : Nat) : List TCGraph → Enc
  | [] => Enc.abort
  | tc :: _ => tcEnc host start tc

def encDiscriminator (host : Endian) (start : Nat) : Option TCGraph → Enc
  | none => Enc.abort
  | some tc => tcEnc host start tc

/-- The member loop of a struct or an exception. -/
def encMembers (host : Endian) (start : Nat) : List (List UInt8) → List TCGraph → Enc
  | [], [] => Enc.put fun _ => []
  | name :: names, tc :: tcs =>
      (Enc.put (cdrPutString host name)).seq <|
      (tcEnc host start tc).seq <|
      encMembers host start names tcs
  | _, _ => Enc.abort

/-- `MEMBER_LOOPER_ENC`. -/
def encArms (host : Endian) (start w : Nat) :
    List Int → List (List UInt8) → List TCGraph → Enc
  | [], [], [] => Enc.put fun _ => []
  | label :: labels, name :: names, tc :: tcs =>
      (Enc.put (cdrPut host w (unsigned w label))).seq <|
      (Enc.put (cdrPutString host name)).seq <|
      (tcEnc host start tc).seq <|
      encArms host start w labels names tcs
  | _, _, _ => Enc.abort

end

/-- `ORBit_encode_CORBA_TypeCode`. -/
def encodeTypeCode (host : Endian) (tc : TCGraph) (size : Nat) : Option Encoded :=
  tcEnc host 0 tc size []

/-! ### Reading -/

/-- A TypeCode that has been read, as far as it has been. A field that is still zero from
`g_new0` is `none`, and the lists are as long as they have been filled. A string is kept
with all its bytes. -/
structure Fields where
  kind : TCKind
  length : Option Nat
  subParts : Option Nat
  name : Option (List UInt8)
  repoId : Option (List UInt8)
  subnames : List (Option (List UInt8))
  sublabels : List Int
  defaultIndex : Option Int
  digits : Option Nat
  scale : Option Int
  deriving DecidableEq, Repr

inductive Decoded where
  | null
  | node (fields : Fields) (subtypes : List Decoded) (discriminator : Decoded)
  deriving Repr

/-- The `struct CORBA_TypeCode_struct` a decoder works on. -/
structure Draft where
  fields : Fields
  subtypes : List Decoded
  discriminator : Decoded

structure TcState where
  cursor : RecvCursor
  prior : List (Decoded × Nat)
  currentIdx : Nat

/-- How a function ends: it returns FALSE, it returns TRUE, or it does not return. -/
inductive Outcome (σ α : Type) where
  | ok (a : α) (s : σ)
  | fail (s : σ)
  | crash

def Reading (σ α : Type) : Type := σ → Outcome σ α

instance {σ : Type} : Monad (Reading σ) where
  pure a := fun s => .ok a s
  bind x f := fun s =>
    match x s with
    | .ok a s => f a s
    | .fail s => .fail s
    | .crash => .crash

namespace Reading
variable {σ α β : Type}

section
variable {x : Reading σ α} {f : α → Reading σ β} {s s' : σ}

theorem bind_ok {a : α} (h : x s = .ok a s') : (x >>= f) s = f a s' := by
  change (match x s with | .ok a s => f a s | .fail s => .fail s | .crash => .crash) = _
  rw [h]

theorem bind_fail (h : x s = .fail s') : (x >>= f) s = .fail s' := by
  change (match x s with | .ok a s => f a s | .fail s => .fail s | .crash => .crash) = _
  rw [h]

theorem bind_crash (h : x s = .crash) : (x >>= f) s = .crash := by
  change (match x s with | .ok a s => f a s | .fail s => .fail s | .crash => .crash) = _
  rw [h]

end

def fail : Reading σ α := fun s => .fail s

def crash : Reading σ α := fun _ => .crash

/-- The call is made, and what it returns does not matter. -/
def ignored (m : Reading σ α) : Reading σ Unit := fun s =>
  match m s with
  | .ok _ s | .fail s => .ok () s
  | .crash => .crash

end Reading

/-- `CDR_get`. -/
def cdrGet (w : Nat) : Reading TcState Nat := fun s =>
  let c := s.cursor
  let cur := alignUp (c.base + c.cur) w - c.base
  if c.data.length < cur + w then .fail { s with cursor := { c with cur := cur } }
  else
    let n := c.host.join ((c.data.drop cur).take w)
    .ok (if w ≠ 1 ∧ c.sender ≠ c.host then swapWord w n else n)
      { s with cursor := { c with cur := cur + w } }

/-- The bytes of a string; `g_memdup` of no bytes is NULL. -/
def cdrGetBytes (len : Nat) : Reading TcState (Option (List UInt8)) := fun s =>
  let c := s.cursor
  if c.data.length < c.cur + len then .fail s
  else
    .ok (if len = 0 then none else some ((c.data.drop c.cur).take len))
      { s with cursor := { c with cur := c.cur + len } }

/-- `CDR_get_const_string`. -/
def cdrGetConstString : Reading TcState (Option (List UInt8)) := do
  let len ← cdrGet 4
  cdrGetBytes len

/-- A call whose result goes into the TypeCode that is being filled in. -/
def decField {α : Type} (m : Reading TcState α) (set : α → Draft → Draft) :
    Reading (Draft × TcState) α := fun (d, s) =>
  match m s with
  | .ok a s => .ok a (set a d, s)
  | .fail s => .fail (d, s)
  | .crash => .crash

def decRepoId : Reading (Draft × TcState) (Option (List UInt8)) :=
  decField cdrGetConstString fun x d => { d with fields := { d.fields with repoId := x } }

def decName : Reading (Draft × TcState) (Option (List UInt8)) :=
  decField cdrGetConstString fun x d => { d with fields := { d.fields with name := x } }

def decLength : Reading (Draft × TcState) Nat :=
  decField (cdrGet 4) fun n d => { d with fields := { d.fields with length := some n } }

def decSubParts : Reading (Draft × TcState) Nat :=
  decField (cdrGet 4) fun n d => { d with fields := { d.fields with subParts := some n } }

def decDefaultIndex : Reading (Draft × TcState) Nat :=
  decField (cdrGet 4) fun n d =>
    { d with fields := { d.fields with defaultIndex := some (signed 4 n) } }

def decDigits : Reading (Draft × TcState) Nat :=
  decField (cdrGet 2) fun n d => { d with fields := { d.fields with digits := some n } }

def decScale : Reading (Draft × TcState) Nat :=
  decField (cdrGet 2) fun n d => { d with fields := { d.fields with scale := some (signed 2 n) } }

def decSubname : Reading (Draft × TcState) (Option (List UInt8)) :=
  decField cdrGetConstString fun x d =>
    { d with fields := { d.fields with subnames := d.fields.subnames ++ [x] } }

def decLabel (discriminator : TCKind) (w : Nat) : Reading (Draft × TcState) Nat :=
  decField (cdrGet w) fun n d =>
    { d with fields :=
        { d.fields with sublabels := d.fields.sublabels ++ [discriminator.label n] } }

section
variable (dec : Reading TcState Decoded)

def decSubtype : Reading (Draft × TcState) Decoded :=
  decField dec fun tc d => { d with subtypes := d.subtypes ++ [tc] }

/-- The only part of a sequence, an array or an alias; `sub_parts` is set behind it. -/
def decOnly : Reading (Draft × TcState) Decoded :=
  decField dec fun tc d =>
    { d with fields := { d.fields with subParts := some 1 }, subtypes := [tc] }

def decDiscriminator : Reading (Draft × TcState) Decoded :=
  decField dec fun tc d => { d with discriminator := tc }

def decNames : Nat → Reading (Draft × TcState) Unit
  | 0 => pure ()
  | n+1 => do
      let _ ← decSubname
      decNames n

/-- The member loop of a struct or an exception. -/
def decMembers : Nat → Reading (Draft × TcState) Unit
  | 0 => pure ()
  | n+1 => do
      let _ ← decSubname
      let _ ← decSubtype dec
      decMembers n

/-- `MEMBER_LOOPER_DEC`. -/
def decArms (discriminator : TCKind) (w : Nat) : Nat → Reading (Draft × TcState) Unit
  | 0 => pure ()
  | n+1 => do
      let _ ← decLabel discriminator w
      let _ ← decSubname
      let _ ← decSubtype dec
      decArms discriminator w n

/-- The switch on `t->discriminator->kind`. -/
def decUnionMembers (subParts : Nat) : Decoded → Reading (Draft × TcState) Unit
  | .null => .crash
  | .node fields _ _ =>
      match fields.kind.labelWidth with
      | some w => decArms dec fields.kind w subParts
      | none => .crash

/-- The decoders of `tk_info`, `tc_dec_tk_objref` to `tc_dec_tk_fixed`. -/
def decoder : TCKind → Reading (Draft × TcState) Unit
  | .objref => do
      let _ ← decRepoId
      let _ ← decName
  | .struct | .except => do
      let _ ← decRepoId
      let _ ← decName
      let subParts ← decSubParts
      decMembers dec subParts
  | .union => do
      let _ ← decRepoId
      let _ ← decName
      let discriminator ← decDiscriminator dec
      let _ ← decDefaultIndex
      let subParts ← decSubParts
      decUnionMembers dec subParts discriminator
  | .enum => do
      let _ ← decRepoId
      let _ ← decName
      let subParts ← decSubParts
      decNames subParts
  | .alias => do
      -- what these two return is not looked at
      decRepoId.ignored
      decName.ignored
      let _ ← decOnly dec
  | .sequence | .array => do
      let _ ← decOnly dec
      let _ ← decLength
  | .string | .wstring => do
      let _ ← decLength
  | .fixed => do
      let _ ← decDigits
      let _ ← decScale
  | _ => pure ()

end

/-- The name of a basic TypeCode, as `DEF_TC_BASIC` and its two companions spell it. -/
@[grind =] def TCKind.basicName : TCKind → Option String
  | .null => some "null" | .void => some "void" | .short => some "short" | .long => some "long"
  | .ushort => some "unsigned_short" | .ulong => some "unsigned_long" | .float => some "float"
  | .double => some "double" | .boolean => some "boolean" | .char => some "char"
  | .octet => some "octet" | .any => some "any" | .typeCode => some "TypeCode"
  | .principal => some "Principal" | .longlong => some "long_long"
  | .ulonglong => some "unsigned_long_long" | .longdouble => some "long_double"
  | .wchar => some "wchar"
  | _ => none

def asciiZ (s : String) : List UInt8 := s.toList.map (fun c => UInt8.ofNat c.toNat) ++ [0]

/-- `info->basic_type`, NULL for the kinds that `tk_info` has no entry for. -/
@[grind =] def TCKind.basicType (kind : TCKind) : Decoded :=
  match kind.basicName with
  | none => .null
  | some name =>
      let repoId := "IDL:omg.org/CORBA/" ++ (if kind = .null then "Null" else name) ++ ":1.0"
      let defaultIndex := if kind = .null ∨ kind = .void then 0 else -1
      .node ⟨kind, some 0, some 0, some (asciiZ name), some (asciiZ repoId), [], [],
        some defaultIndex, some 0, some 0⟩ [] .null

mutual

/-- `ORBit_TC_find_c_alignment` meets no NULL pointer. -/
def Decoded.alignable : Decoded → Bool
  | .null => false
  | .node fields subtypes discriminator =>
      match fields.kind with
      | .union =>
          Decoded.alignable discriminator && decide (fields.subParts.getD 0 ≤ subtypes.length) &&
            Decoded.allAlignable subtypes
      | .struct | .except =>
          decide (fields.subParts.getD 0 ≤ subtypes.length) && Decoded.allAlignable subtypes
      | .array | .alias => decide (1 ≤ subtypes.length) && Decoded.allAlignable subtypes
      | _ => true

def Decoded.allAlignable : List Decoded → Bool
  | [] => true
  | tc :: tcs => Decoded.alignable tc && Decoded.allAlignable tcs

end

/-- `node->index - ctx->current_idx - get_rptr (c)`: the first difference is a `guint`, the
second a `gint64`. -/
def backOffset (index currentIdx rptr : Nat) : Int :=
  unsigned 4 ((index : Int) - currentIdx) - rptr

/-- `giop_recv_buffer_use_encaps_buf`: the cursor of the encapsulation, if there is one, and
what is left of the buffer. The flags are read even if the encapsulation is empty; `none` is
a read behind the end of the buffer. -/
def useEncapsBuf (c : RecvCursor) : Option (Option RecvCursor × RecvCursor) :=
  let cur := alignUp (c.base + c.cur) 4 - c.base
  if c.data.length < cur + 4 then some (none, { c with cur := cur })
  else
    let n := c.host.join ((c.data.drop cur).take 4)
    let len := if c.sender ≠ c.host then swapWord 4 n else n
    let c := { c with cur := cur + 4 }
    if c.data.length < c.cur + len then some (none, c)
    else
      match c.data[c.cur]? with
      | none => none
      | some flags =>
          let sender := if flags.toNat % 2 = 1 then Endian.little else Endian.big
          some (some ⟨c.base + c.cur, (c.data.drop c.cur).take len, 1, c.host, sender⟩,
            { c with cur := c.cur + len })

def Draft.empty (kind : TCKind) : Draft :=
  ⟨⟨kind, none, none, none, none, [], [], none, none, none⟩, [], .null⟩

/-- The end of `tc_dec`: `c_align` is computed, the node is remembered and handed out. -/
def tcFinish (index : Nat) (d : Draft) : Reading TcState Decoded := fun s =>
  let tc : Decoded := .node d.fields d.subtypes d.discriminator
  if tc.alignable then .ok tc { s with prior := (tc, index) :: s.prior } else .crash

/-- `tc_dec` for `CORBA_tk_recursive`: the first node of `prior_tcs` at the given offset, or
`g_error`. -/
def tcRecursive : Reading TcState Decoded := do
  let offset ← cdrGet 4
  fun s =>
    match s.prior.find? fun node =>
      signed 4 offset == backOffset node.2 s.currentIdx s.cursor.cur with
    | some node => .ok node.1 s
    | none => .crash

/-- `tc_dec` behind a kind that it knows. What the decoders return is not looked at. -/
def tcNode (dec : Reading TcState Decoded) (kind : TCKind) : Reading TcState Decoded := fun s =>
  let index := (s.currentIdx + s.cursor.cur - 4) % 2^32
  match kind.tkType with
  | .empty => .ok kind.basicType { s with prior := (kind.basicType, index) :: s.prior }
  | .simple =>
      match decoder dec kind (Draft.empty kind, s) with
      | .ok _ (d, t) | .fail (d, t) => tcFinish index d t
      | .crash => .crash
  | .complex =>
      match useEncapsBuf s.cursor with
      | some (some encaps, c) =>
          let inner := { s with
            cursor := encaps, currentIdx := (s.currentIdx + (s.cursor.cur + 4)) % 2^32 }
          match decoder dec kind (Draft.empty kind, inner) with
          | .ok _ (d, t) | .fail (d, t) =>
              tcFinish index d { t with cursor := c, currentIdx := s.currentIdx }
          | .crash => .crash
      | _ => .crash

/-- `tc_dec`, to a depth of encapsulations that the data cannot exceed. -/
def tcDec : Nat → Reading TcState Decoded
  | 0 => .crash
  | depth+1 => do
      let lkind ← cdrGet 4
      match TCKind.all[lkind]? with
      | some kind => tcNode (tcDec depth) kind
      | none => if lkind = tkRecursive then tcRecursive else .fail

/-- `ORBit_decode_CORBA_TypeCode`. -/
def decodeTypeCode (c : RecvCursor) : Outcome TcState Decoded :=
  tcDec (c.data.length + 1) ⟨c, [], 0⟩

end ORBit2
