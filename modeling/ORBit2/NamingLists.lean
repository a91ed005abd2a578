import ORBit2.Base.Runs
import ORBit2.NamingContexts

/-! `impl_NamingContext_list` and the BindingIterator of the name server: the names of one context,
in memory, shared by its table and by the lists that iterators go through. -/

set_option autoImplicit false

namespace ORBit2

/-- A `RegisteredName` at an address. -/
structure RegisteredEntry where
  nc : NameComponent
  name : RegisteredName
  refcount : Int
  deriving DecidableEq, Repr

/-- `CosNaming_Binding`, with `CosNaming_ncontext` or `CosNaming_nobject`. -/
structure Binding where
  bindingName : NameComponent
  isContext : Bool
  deriving DecidableEq, Repr

/-- A call of list and what became of it: the items of the iterator that came back, and what its
client knows. `present` are the bindings at the time of the call. -/
structure Listing where
  items : List Nat
  destroyed : Bool
  present : List Binding
  received : List Binding
  stopped : Bool
  deriving DecidableEq, Repr

/-- A context: what lies at an address (nothing before `rn_new` and after `g_free`), the addresses
in `servant->names`, the calls of list in their order, and the addresses freed so far. -/
structure NameServer where
  heap : Nat → Option RegisteredEntry
  next : Nat
  names : List Nat
  listings : List Listing
  freed : List Nat

namespace NameServer

def empty : NameServer := ⟨fun _ => none, 0, [], [], []⟩

def setEntry (s : NameServer) (p : Nat) (e : Option RegisteredEntry) : NameServer :=
  { s with heap := Function.update s.heap p e }

def setListing (s : NameServer) (i : Nat) (l : Listing) : NameServer :=
  { s with listings := s.listings.set i l }

/-- What a client is told about an entry. -/
def binding (s : NameServer) (p : Nat) : Option Binding :=
  (s.heap p).map fun e => ⟨e.nc, e.name.isSubctx⟩

/-! `none` is memory read or written after it was freed, or a NULL pointer followed. -/

/-- `rn_ref`. -/
def rnRef (p : Nat) (s : NameServer) : Option NameServer := do
  let e ← s.heap p
  some (s.setEntry p (some { e with refcount := e.refcount + 1 }))

/-- `rn_unref`. -/
def rnUnref (p : Nat) (s : NameServer) : Option NameServer := do
  let e ← s.heap p
  if e.refcount - 1 ≤ 0 then some { s.setEntry p none with freed := p :: s.freed }
  else some (s.setEntry p (some { e with refcount := e.refcount - 1 }))

/-- `g_hash_table_lookup`; the keys are parts of the entries. -/
@[grind =] def lookup (s : NameServer) (nc : NameComponent) : List Nat → Option (Option Nat)
  | [] => some none
  | p :: ps => do
      let e ← s.heap p
      if e.nc = nc then some (some p) else lookup s nc ps

/-- `rn_new`, `rn_ref` and `g_hash_table_insert`. -/
def insert (nc : NameComponent) (name : RegisteredName) (s : NameServer) : Option NameServer := do
  let s' ← rnRef s.next { s.setEntry s.next (some ⟨nc, name, 0⟩) with next := s.next + 1 }
  some { s' with names := s.next :: s'.names }

/-- `g_hash_table_remove` and `rn_unref`. -/
def remove (p : Nat) (s : NameServer) : Option NameServer :=
  rnUnref p { s with names := s.names.erase p }

/-- `impl_NamingContext_unbind` of one component; NotFound changes nothing. -/
def unbind (nc : NameComponent) (s : NameServer) : Option NameServer := do
  match ← s.lookup nc s.names with
  | some p => s.remove p
  | none => some s

/-- `impl_NamingContext_bind` and `impl_NamingContext_bind_context` of one component; `gone` is what
`CORBA_Object_non_existent` says about the object that is bound. AlreadyBound changes nothing. -/
def bind (nc : NameComponent) (name : RegisteredName) (gone : Bool) (s : NameServer) :
    Option NameServer := do
  match ← s.lookup nc s.names with
  | some _ => if gone then (← s.unbind nc).insert nc name else some s
  | none => s.insert nc name

/-- `impl_NamingContext_rebind` and `impl_NamingContext_rebind_context` of one component. -/
def rebind (nc : NameComponent) (name : RegisteredName) (s : NameServer) : Option NameServer := do
  match ← s.lookup nc s.names with
  | some p => (← s.remove p).insert nc name
  | none => s.insert nc name

/-- `nc_names_into_itemlist`. -/
@[grind =] def refAll : List Nat → NameServer → Option NameServer
  | [], s => some s
  | p :: ps, s => do refAll ps (← s.rnRef p)

/-- `g_list_foreach (servant->items, (GFunc) l_rn_unref, NULL)`. -/
@[grind =] def unrefAll : List Nat → NameServer → Option NameServer
  | [], s => some s
  | p :: ps, s => do unrefAll ps (← s.rnUnref p)

/-- `n_names_into_bindinglist`: the list, and the items that stay. -/
@[grind =] def namesIntoBindinglist : Nat → List Nat → NameServer →
    Option (NameServer × List Binding × List Nat)
  | 0, items, s => some (s, [], items)
  | _+1, [], _ => none
  | n+1, p :: items, s => do
      let b ← s.binding p
      let (s, bl, items) ← namesIntoBindinglist n items (← s.rnUnref p)
      some (s, b :: bl, items)

/-- `impl_NamingContext_list`, when `g_hash_table_foreach` goes through the table in this order.
Without an iterator the client has come to the end. -/
@[grind =] def list (howMany : Nat) (order : List Nat) (s : NameServer) : Option NameServer := do
  let items := if order.isPerm s.names then order else s.names
  let n := if 0 < howMany then min howMany s.names.length else 0
  let (s', bl, rest) ← namesIntoBindinglist n items (← s.refAll items)
  some { s' with listings := s'.listings ++
    [⟨rest, rest.isEmpty, items.filterMap s.binding, bl, rest.isEmpty⟩] }

/-- `impl_BindingIterator_next_one`. Without items `*b` is NULL and the skeleton marshals what it
points to. `takes` says whether the client looks at the binding of a FALSE reply. -/
def nextOne (takes : Bool) (i : Nat) (l : Listing) (s : NameServer) : Option NameServer :=
  match l.items with
  | [] => none
  | p :: rest => do
      let b ← s.binding p
      (s.setListing i { l with
        items := rest
        received := if rest.isEmpty && !takes then l.received else l.received ++ [b]
        stopped := rest.isEmpty }).rnUnref p

/-- `impl_BindingIterator_next_n`. -/
def nextN (i howMany : Nat) (l : Listing) (s : NameServer) : Option NameServer := do
  let (s, bl, rest) ← namesIntoBindinglist (min l.items.length howMany) l.items
    (s.setListing i { l with items := [] })
  some (s.setListing i { l with
    items := rest, received := l.received ++ bl, stopped := bl.isEmpty })

/-- `impl_BindingIterator_destroy`. -/
def destroy (i : Nat) (l : Listing) (s : NameServer) : Option NameServer :=
  unrefAll l.items (s.setListing i { l with items := [], destroyed := true })

end NameServer

/-- What the clients of a context call. -/
inductive NamingCall where
  | bind (nc : NameComponent) (name : RegisteredName) (gone : Bool)
  | rebind (nc : NameComponent) (name : RegisteredName)
  | unbind (nc : NameComponent)
  | list (howMany : Nat) (order : List Nat)
  | nextOne (i : Nat)
  | nextN (i howMany : Nat)
  | destroy (i : Nat)

namespace NameServer

/-- The client of an iterator stops at the first FALSE, and calls nothing it has destroyed. -/
def onIterator (s : NameServer) (i : Nat) (active : Listing → Bool)
    (call : Listing → Option NameServer) : Option NameServer :=
  match s.listings[i]? with
  | some l => if active l then call l else some s
  | none => some s

def isActive (l : Listing) : Bool := !l.stopped && !l.destroyed

/-- One call. -/
def step (takes : Bool) (s : NameServer) : NamingCall → Option NameServer
  | .bind nc name gone => s.bind nc name gone
  | .rebind nc name => s.rebind nc name
  | .unbind nc => s.unbind nc
  | .list howMany order => s.list howMany order
  | .nextOne i => s.onIterator i isActive fun l => s.nextOne takes i l
  | .nextN i howMany => s.onIterator i isActive fun l => s.nextN i howMany l
  | .destroy i => s.onIterator i (fun l => !l.destroyed) fun l => s.destroy i l

/-- A server that has crashed answers no more calls. -/
def stepped (takes : Bool) (s : Option NameServer) (c : NamingCall) : Option NameServer :=
  s.bind fun s => s.step takes c

/-- How often an address is in the table and in the items of iterators. -/
def refs (s : NameServer) (p : Nat) : Nat :=
  s.names.count p + (s.listings.map Listing.items).flatten.count p

/-- Entries are there as long as the table or an iterator refers to them and are freed once; a
client that has come to the end has every binding that was there, once. -/
structure Right (s : NameServer) : Prop where
  live : ∀ p, (s.heap p).isSome = true ↔ 0 < s.refs p
  freedOnce : ∀ p, s.freed.count p = if p < s.next ∧ s.heap p = none then 1 else 0
  distinct : ∀ l ∈ s.listings, (l.present.map Binding.bindingName).Nodup
  complete : ∀ l ∈ s.listings, l.stopped = true → l.received = l.present

/-- `next_one` is asked while it has two items left (one, where the client takes the binding that
comes with FALSE), and `next_n` for at least one while it has any. -/
def Careful (takes : Bool) : Option NameServer → NamingCall → Prop
  | some s, .nextOne i =>
      ∀ l, s.listings[i]? = some l → isActive l = true →
        2 ≤ l.items.length ∨ takes = true ∧ l.items ≠ []
  | some s, .nextN i howMany =>
      ∀ l, s.listings[i]? = some l → isActive l = true → 0 < howMany ∨ l.items = []
  | _, _ => True

end NameServer
end ORBit2
