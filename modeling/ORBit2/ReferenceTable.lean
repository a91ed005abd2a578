import ORBit2.Base.KeyTable
import ORBit2.Base.Runs
import ORBit2.HostileReferences

/-! The table of the references that a program holds (`orb->objrefs` in corba-object.c), while
references are read, made for objects of its own, written, copied for proxies, forwarded and
released. `CORBA_Object_is_equivalent` compares addresses: it relies on there being one reference
for one object. -/

set_option autoImplicit false

namespace ORBit2

/-- A reference that can be compared with others. -/
structure SoundReference where
  ref : Reference
  sound : ref.Sound

namespace SoundReference

/-- `g_CORBA_Object_equal` -/
def same (a b : SoundReference) : Bool :=
  match a.ref.equal b.ref with
  | .ok equal => equal
  | .error _ => false

/-- The reference with another key. -/
def withKey (a : SoundReference) (key : List UInt8) : SoundReference :=
  ⟨{ a.ref with objectKey := some key }, ⟨nofun, a.sound.profiles, a.sound.stripped, a.sound.strings⟩⟩

end SoundReference

/-- `CORBA_Object_type`. A reference to an object of the program has neither key nor profiles until
it is written. -/
structure ObjectReference where
  reference : Option SoundReference
  refs : Nat
  /-- it has been put into the table -/
  registered : Bool

namespace ReferenceTable

structure State where
  heap : Nat → Option ObjectReference
  objrefs : List (KeyTable.Node Nat Nat)

inductive Fault where
  /-- memory of a reference is used that has been freed -/
  | freed
  /-- a `g_assert` fails -/
  | assertion
  deriving DecidableEq, Repr

/-- The comparison of a key of the table with the reference that is looked for. -/
def compareKey (heap : Nat → Option ObjectReference) (ref : SoundReference) (o : Nat) :
    Except Fault Bool :=
  match (heap o).bind ObjectReference.reference with
  | some r => .ok (r.same ref)
  | none => .error .freed

inductive Event where
  /-- `ORBit_objref_find`, with memory for a new reference -/
  | find (ref : SoundReference) (addr : Nat)
  /-- `ORBit_POA_obj_to_ref` -/
  | create (addr : Nat)
  /-- `IOP_generate_profiles` and `ORBit_register_objref` -/
  | generate (o : Nat) (ref : SoundReference)
  /-- `ORBit_objref_get_proxy`, of a reference with profiles and their copy -/
  | proxy (o : Nat) (copy : SoundReference) (addr : Nat)
  /-- the new key, behind a forward, in `ORBit_object_get_connection` -/
  | forward (o : Nat) (key : List UInt8)
  | duplicate (o : Nat)
  | release (o : Nat)
  /-- the table puts its nodes into another order -/
  | resize (nodes : List (KeyTable.Node Nat Nat))

namespace State

def refAt (s : State) (o : Nat) : Option SoundReference := (s.heap o).bind ObjectReference.reference

/-- `g_hash_table_insert`, of a reference that gets this content -/
def register (s : State) (o : Nat) (obj : ObjectReference) (ref : SoundReference) :
    Except Fault State := do
  let heap := Function.update s.heap o (some { obj with reference := some ref, registered := true })
  let objrefs ← KeyTable.insert (compareKey heap ref) o o s.objrefs
  return ⟨heap, objrefs⟩

/-- The event can happen: memory that is handed out is free, and references that are used live. -/
def Enabled (s : State) : Event → Prop
  | .find _ addr | .create addr => (s.heap addr).isNone = true
  | .generate o _ => ((s.heap o).any fun obj => obj.reference.isNone) = true
  | .proxy o _ addr => (s.heap addr).isNone = true ∧ (s.refAt o).isSome = true
  | .forward o _ => (s.refAt o).isSome = true
  | .duplicate o | .release o => (s.heap o).isSome = true
  | .resize nodes => nodes.Perm s.objrefs

instance (s : State) : ∀ e, Decidable (s.Enabled e)
  | .find _ addr | .create addr => inferInstanceAs (Decidable ((s.heap addr).isNone = true))
  | .generate o _ =>
      inferInstanceAs (Decidable (((s.heap o).any fun obj => obj.reference.isNone) = true))
  | .proxy o _ addr =>
      inferInstanceAs (Decidable ((s.heap addr).isNone = true ∧ (s.refAt o).isSome = true))
  | .forward o _ => inferInstanceAs (Decidable ((s.refAt o).isSome = true))
  | .duplicate o | .release o => inferInstanceAs (Decidable ((s.heap o).isSome = true))
  | .resize nodes => inferInstanceAs (Decidable (nodes.Perm s.objrefs))

/-- What an event does that can happen. -/
def act (s : State) : Event → Except Fault State
  | .find ref addr => do
      match ← KeyTable.lookup (compareKey s.heap ref) s.objrefs with
      | some o =>
          match s.heap o with
          | some obj =>
              return { s with heap := Function.update s.heap o (some { obj with refs := obj.refs + 1 }) }
          | none => throw .freed
      | none => s.register addr ⟨none, 1, false⟩ ref
  | .create addr => .ok { s with heap := Function.update s.heap addr (some ⟨none, 1, false⟩) }
  | .generate o ref =>
      match s.heap o with
      | some obj => s.register o obj ref
      | none => .error .freed
  | .proxy _ copy addr =>
      .ok { s with heap := Function.update s.heap addr (some ⟨some copy, 1, false⟩) }
  | .forward o key =>
      match s.heap o with
      | some obj =>
          match obj.reference with
          | some ref =>
              if ref.ref.objectKey = some key then .ok s
              else do
                let objrefs ← KeyTable.remove (compareKey s.heap ref) s.objrefs
                register { s with objrefs := objrefs } o obj (ref.withKey key)
          | none => .error .freed
      | none => .error .freed
  | .duplicate o =>
      match s.heap o with
      | some obj =>
          .ok { s with heap := Function.update s.heap o (some { obj with refs := obj.refs + 1 }) }
      | none => .error .freed
  | .release o =>
      match s.heap o with
      | some obj =>
          if obj.refs = 0 then .error .assertion
          else if 1 < obj.refs then
            .ok { s with heap := Function.update s.heap o (some { obj with refs := obj.refs - 1 }) }
          else
            -- `CORBA_Object_release_cb`
            match obj.reference with
            | some ref => do
                let objrefs ← KeyTable.remove (compareKey s.heap ref) s.objrefs
                return ⟨Function.update s.heap o none, objrefs⟩
            | none => .ok { s with heap := Function.update s.heap o none }
      | none => .error .freed
  | .resize nodes => .ok { s with objrefs := nodes }

/-- One event. What cannot happen changes nothing. -/
def step (s : Except Fault State) (e : Event) : Except Fault State := do
  let s ← s
  if s.Enabled e then s.act e else return s

/-! ### What the table is for -/

/-- A living reference that has been put into the table. -/
def Registered (s : State) (o : Nat) (ref : SoundReference) : Prop :=
  ∃ obj, s.heap o = some obj ∧ obj.registered = true ∧ obj.reference = some ref

/-- No node is left of a reference that has been freed; every reference that has been put into the
table is found by its own key and profiles until it is freed; and no two of them are equal. -/
structure Unique (s : State) : Prop where
  alive : ∀ n ∈ s.objrefs, (s.heap n.key).isSome = true ∧ (s.heap n.value).isSome = true
  found : ∀ o ref, s.Registered o ref →
    KeyTable.lookup (compareKey s.heap ref) s.objrefs = .ok (some o)
  distinct : ∀ o o' ref ref', s.Registered o ref → s.Registered o' ref' → o ≠ o' →
    ref.same ref' = false

/-- A reference of the table is equal. -/
def Known (s : State) (ref : SoundReference) : Prop :=
  ∃ o r, s.Registered o r ∧ r.same ref = true

/-- A reference of the table, but this one, is equal. -/
def KnownElse (s : State) (o : Nat) (ref : SoundReference) : Prop :=
  ∃ o' r, o' ≠ o ∧ s.Registered o' r ∧ r.same ref = true

/-- What an event has to meet: a reference that is put into the table is equal to itself and to no
other one there, before and after it changes its key; and a reference that is freed without having
been put there is equal to none that has. -/
def Keeps (s : State) : Event → Prop
  | .find ref _ => s.Known ref ∨ ref.same ref = true
  | .generate _ ref => ¬ s.Known ref ∧ ref.same ref = true
  | .forward o key => ∀ ref, s.refAt o = some ref → ref.ref.objectKey ≠ some key →
      ¬ s.KnownElse o ref ∧ ¬ s.KnownElse o (ref.withKey key) ∧ ref.same ref = true
  | .release o => ∀ obj ref, s.heap o = some obj → obj.reference = some ref → obj.refs = 1 →
      obj.registered = false → ¬ s.Known ref
  | .create _ | .proxy _ _ _ | .duplicate _ | .resize _ => True

end State

end ReferenceTable

end ORBit2
