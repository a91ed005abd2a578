import ORBit2.IopProfiles

/-! The properties of contexts: hash tables of copied strings, which a child context searches before
those of its parents, against maps of names to values. -/

set_option autoImplicit false

namespace ORBit2.Contexts

/-- A string of `g_strdup`. -/
structure Chunk where
  text : CString
  freed : Bool
  deriving DecidableEq

/-- A string goes by its number; memory is not used twice. -/
abbrev Heap : Type := List Chunk

namespace Heap

/-- A string that has been freed cannot be read. -/
def read (heap : Heap) (p : Nat) : Option CString :=
  heap[p]?.bind fun chunk => if chunk.freed then none else some chunk.text

/-- `g_free` -/
def free (heap : Heap) (p : Nat) : Option Heap :=
  (heap.read p).map fun text => heap.set p ⟨text, true⟩

end Heap

/-- A node of a hash table. -/
structure Entry where
  key : Nat
  value : Nat
  deriving DecidableEq

structure Context where
  theName : Option CString
  parentCtx : Option Nat
  mappings : Option (List Entry)
  children : List Nat
  deriving DecidableEq

def Context.entries (c : Context) : List Entry := c.mappings.getD []

/-- All contexts, each by its number. -/
structure State where
  heap : Heap
  contexts : List Context
  deriving DecidableEq

/-- The default context of an ORB. -/
def initial : State := ⟨[], [⟨none, none, none, []⟩]⟩

/-- An item of a `CORBA_NVList`. Its any points to the pointer to the text; read as a string itself,
that pointer has the text `bytes`. -/
structure NamedValue where
  name : CString
  text : CString
  bytes : CString
  deriving DecidableEq

/-- `g_hash_table_lookup_extended`. The keys in the way are compared. -/
def lookupExtended (heap : Heap) (name : CString) : List Entry → Option (Option Entry)
  | [] => some none
  | e :: table => do
      let key ← heap.read e.key
      if key = name then return some e else lookupExtended heap name table

/-- The old key and the old value of a name are freed. -/
def removeOld (heap : Heap) (table : List Entry) : Option Entry → Option (Heap × List Entry)
  | none => some (heap, table)
  | some old => do
      let heap ← heap.free old.key
      let heap ← heap.free old.value
      return (heap, table.filter (· ≠ old))

/-- `CORBA_Context_set_one_value` -/
def setOneValue (s : State) (ctx : Nat) (propName value : CString) : Option State := do
  let c ← s.contexts[ctx]?
  let found ← lookupExtended s.heap propName c.entries
  let (heap, table) ← removeOld s.heap c.entries found
  let mappings := ⟨heap.length, heap.length + 1⟩ :: table
  return { heap := heap ++ [⟨propName, false⟩, ⟨value, false⟩],
           contexts := s.contexts.set ctx { c with mappings := some mappings } }

/-- `CORBA_Context_set_values`, which takes the pointer to the text for the text. -/
def setValues (s : State) (ctx : Nat) : List NamedValue → Option State
  | [] => some s
  | nvp :: values => do
      let s ← setOneValue s ctx nvp.name nvp.bytes
      setValues s ctx values

/-- `strncmp (key, prop_name, len) == 0` -/
def SamePrefix (len : Nat) (propName key : CString) : Prop := key.1.take len = propName.1.take len

instance (len : Nat) (propName key : CString) : Decidable (SamePrefix len propName key) :=
  inferInstanceAs (Decidable (_ = _))

def listHasKey (list : List (CString × CString)) (key : CString) : Bool :=
  list.any fun nvp => nvp.1 = key

/-- `g_hash_table_foreach` with `search_props` -/
def searchProps (heap : Heap) (propName : CString) (len : Nat) (values : List (CString × CString)) :
    List Entry → Option (List (CString × CString))
  | [] => some values
  | e :: table => do
      let key ← heap.read e.key
      if ¬ SamePrefix len propName key then searchProps heap propName len values table
      else if listHasKey values key then searchProps heap propName len values table
      else
        let value ← heap.read e.value
        searchProps heap propName len (values ++ [(key, value)]) table

/-- `ctx_get_values`; the first argument bounds the depth. -/
def ctxGetValues (s : State) (restrictScope : Bool) (propName : CString) (isWc : Int) :
    Nat → Nat → List (CString × CString) → Option (List (CString × CString))
  | 0, _, _ => none
  | depth+1, ctx, values => do
      let c ← s.contexts[ctx]?
      let (values, goUp) ←
        if 0 ≤ isWc then do
          let values ← searchProps s.heap propName isWc.toNat values c.entries
          pure (values, true)
        else do
          match ← lookupExtended s.heap propName c.entries with
          | none => pure (values, true)
          | some e =>
              let val ← s.heap.read e.value
              pure (values ++ [(propName, val)], false)
      match c.parentCtx with
      | some parent =>
          if goUp ∧ restrictScope = false then
            ctxGetValues s restrictScope propName isWc depth parent values
          else return values
      | none => return values

/-- The loop that looks for the start scope. -/
def findScope (s : State) (startScope : CString) : Nat → Option Nat → Option (Option Nat)
  | 0, _ => none
  | _+1, none => some none
  | depth+1, some ctx => do
      let c ← s.contexts[ctx]?
      if c.theName = some startScope then return some ctx
      else findScope s startScope depth c.parentCtx

inductive Reply
  | values (values : List (CString × CString))
  | unknown
  | invIdent
  deriving DecidableEq

/-- The first part of `CORBA_Context_get_values`. -/
def scopeOf (s : State) (ctx : Nat) : Option CString → Option (Option Nat)
  | none => some (some ctx)
  | some startScope =>
      if startScope.1 ≠ [] then findScope s startScope (s.contexts.length + 1) (some ctx)
      else some (some ctx)

/-- `CORBA_Context_get_values`. `is_wc` is whether the last character is a star, and the character
before an empty name is not ours to read. -/
def getValues (s : State) (ctx : Nat) (startScope : Option CString) (restrictScope : Bool)
    (propName : CString) : Option Reply := do
  match ← scopeOf s ctx startScope with
  | none => return .invIdent
  | some ctx =>
      let last ← propName.1.getLast?
      let values ← ctxGetValues s restrictScope propName (if last = 42 then 1 else 0) s.contexts.length
        ctx []
      if values.length = 0 then return .unknown else return .values values

/-- `g_hash_table_foreach` with `delete_props`: to remove a node there is not defined. -/
def deleteProps (heap : Heap) (propName : CString) (len : Nat) : List Entry → Option Unit
  | [] => some ()
  | e :: table => do
      let key ← heap.read e.key
      if SamePrefix len propName key then none else deleteProps heap propName len table

/-- `CORBA_Context_delete_values`. Without a star the key and the value are freed, and stay in the
table. -/
def deleteValues (s : State) (ctx : Nat) (propName : CString) : Option State := do
  let c ← s.contexts[ctx]?
  match c.mappings with
  | none => return s
  | some table =>
      if 42 ∈ propName.1 then
        let _ ← deleteProps s.heap propName (propName.1.idxOf 42) table
        return s
      else
        match ← lookupExtended s.heap propName table with
        | none => return s
        | some old =>
            let heap ← s.heap.free old.key
            let heap ← heap.free old.value
            return { s with heap }

/-- `CORBA_Context_create_child` -/
def createChild (s : State) (ctx : Nat) (ctxName : Option CString) : Option State := do
  let c ← s.contexts[ctx]?
  return { s with contexts :=
    s.contexts.set ctx { c with children := s.contexts.length :: c.children } ++
      [⟨ctxName, some ctx, none, []⟩] }

inductive Op
  | setOneValue (ctx : Nat) (propName value : CString)
  | setValues (ctx : Nat) (values : List NamedValue)
  | deleteValues (ctx : Nat) (propName : CString)
  | createChild (ctx : Nat) (ctxName : Option CString)
  deriving DecidableEq

def step (s : State) : Op → Option State
  | .setOneValue ctx propName value => setOneValue s ctx propName value
  | .setValues ctx values => setValues s ctx values
  | .deleteValues ctx propName => deleteValues s ctx propName
  | .createChild ctx ctxName => createChild s ctx ctxName

def run (s : State) : List Op → Option State
  | [] => some s
  | op :: ops => do
      let s ← step s op
      run s ops

/-! ### What the properties are -/

/-- A scope has a value for each of some names. -/
structure Scope where
  name : Option CString
  parent : Option Nat
  props : CString → Option CString

abbrev Tree : Type := List Scope

/-- The name itself, or, if it ends in a star, the names that begin with what is before the star. -/
def Matches (propName name : CString) : Prop :=
  name = propName ∨ propName.1.getLast? = some 42 ∧ propName.1.dropLast <+: name.1

instance (propName name : CString) : Decidable (Matches propName name) :=
  inferInstanceAs (Decidable (_ ∨ _))

namespace Scope

def set (scope : Scope) (name value : CString) : Scope :=
  { scope with props := Function.update scope.props name (some value) }

def delete (scope : Scope) (propName : CString) : Scope :=
  { scope with props := fun name => if Matches propName name then none else scope.props name }

end Scope

/-- What an operation is to do. -/
def Tree.apply (tree : Tree) : Op → Tree
  | .setOneValue ctx propName value => tree.modify ctx (·.set propName value)
  | .setValues ctx values =>
      values.foldl (fun tree nvp => tree.modify ctx (·.set nvp.name nvp.text)) tree
  | .deleteValues ctx propName => tree.modify ctx (·.delete propName)
  | .createChild ctx ctxName => tree ++ [⟨ctxName, some ctx, fun _ => none⟩]

/-- The properties after some operations. -/
def history (ops : List Op) : Tree := ops.foldl Tree.apply [⟨none, none, fun _ => none⟩]

/-- The value of a name in the nearest scope that has it. -/
inductive Nearest (tree : Tree) (restrictScope : Bool) (name value : CString) : Nat → Prop
  | here {ctx : Nat} {scope : Scope} : tree[ctx]? = some scope → scope.props name = some value →
      Nearest tree restrictScope name value ctx
  | above {ctx parent : Nat} {scope : Scope} : tree[ctx]? = some scope → scope.props name = none →
      restrictScope = false → scope.parent = some parent →
      Nearest tree restrictScope name value parent → Nearest tree restrictScope name value ctx

/-- The nearest scope that has the name. -/
inductive Starts (tree : Tree) (start : CString) : Nat → Nat → Prop
  | here {ctx : Nat} {scope : Scope} : tree[ctx]? = some scope → scope.name = some start →
      Starts tree start ctx ctx
  | above {ctx parent found : Nat} {scope : Scope} : tree[ctx]? = some scope →
      scope.name ≠ some start → scope.parent = some parent → Starts tree start parent found →
      Starts tree start ctx found

/-- The scope to begin with. -/
def Begins (tree : Tree) (ctx : Nat) (startScope : Option CString) (found : Nat) : Prop :=
  match startScope with
  | none => found = ctx
  | some start => if start.1 ≠ [] then Starts tree start ctx found else found = ctx

/-- The reply that is right. -/
def Answers (tree : Tree) (ctx : Nat) (startScope : Option CString) (restrictScope : Bool)
    (propName : CString) : Reply → Prop
  | .invIdent => ∀ found, ¬ Begins tree ctx startScope found
  | .unknown => ∃ found, Begins tree ctx startScope found ∧
      ∀ name value, ¬ (Matches propName name ∧ Nearest tree restrictScope name value found)
  | .values values => ∃ found, Begins tree ctx startScope found ∧ values ≠ [] ∧
      (values.map Prod.fst).Nodup ∧
      ∀ name value, (name, value) ∈ values ↔
        Matches propName name ∧ Nearest tree restrictScope name value found

/-! ### The hash tables hold the properties -/

/-- The hash table of a scope. -/
structure Holds (heap : Heap) (table : List Entry) (props : CString → Option CString) : Prop where
  readable : ∀ e ∈ table, ∃ name value, heap.read e.key = some name ∧ heap.read e.value = some value
  names : ∀ e ∈ table, ∀ e' ∈ table, heap.read e.key = heap.read e'.key → e = e'
  props : ∀ name value, props name = some value ↔
    ∃ e ∈ table, heap.read e.key = some name ∧ heap.read e.value = some value

def State.entries (s : State) (ctx : Nat) : List Entry := (s.contexts[ctx]?.map Context.entries).getD []

def Entry.blocks (e : Entry) : List Nat := [e.key, e.value]

/-- The contexts have the properties of the tree, and no two strings of them are the same. -/
structure Sound (s : State) (tree : Tree) : Prop where
  size : s.contexts.length = tree.length
  held : ∀ (ctx : Nat) (c : Context), s.contexts[ctx]? = some c → ∃ scope : Scope,
    tree[ctx]? = some scope ∧ scope.name = c.theName ∧ scope.parent = c.parentCtx ∧ Holds s.heap c.entries scope.props
  above : ∀ (ctx : Nat) (c : Context) (parent : Nat), s.contexts[ctx]? = some c → c.parentCtx = some parent → parent < ctx
  apart : ∀ ctx ctx' e e' p, e ∈ s.entries ctx → e' ∈ s.entries ctx' → p ∈ e.blocks → p ∈ e'.blocks →
    ctx = ctx' ∧ e = e'
  twain : ∀ ctx e, e ∈ s.entries ctx → e.key ≠ e.value

namespace Heap
variable {heap heap' : Heap} {p q : Nat} {text : CString}

theorem lt_of_read (h : heap.read p = some text) : p < heap.length := by
  obtain ⟨chunk, hchunk, -⟩ := Option.bind_eq_some_iff.mp h
  exact (List.getElem?_eq_some_iff.mp hchunk).1

theorem read_append (more : List Chunk) (h : p < heap.length) :
    read (heap ++ more) p = heap.read p := by
  rw [read, List.getElem?_append_left h, read]

theorem free_of_read (h : heap.read p = some text) : heap.free p = some (heap.set p ⟨text, true⟩) := by
  rw [free, h, Option.map_some]

/-- Another string is still there. -/
theorem read_set (h : q ≠ p) (chunk : Chunk) : read (heap.set p chunk) q = heap.read q := by
  rw [read, List.getElem?_set_ne (Ne.symm h), read]

end Heap

section
variable {heap : Heap} {table : List Entry}

/-- A look-up finds a node with the name, if there is one. -/
theorem lookupExtended_cases (name : CString) (hread : ∀ e ∈ table, ∃ key, heap.read e.key = some key) :
    (∃ e ∈ table, lookupExtended heap name table = some (some e) ∧ heap.read e.key = some name) ∨
      lookupExtended heap name table = some none ∧ ∀ e ∈ table, heap.read e.key ≠ some name := by
  induction table with
  | nil => exact .inr ⟨rfl, fun e h => nomatch h⟩
  | cons e table ih =>
    obtain ⟨key, hkey⟩ := hread e List.mem_cons_self
    by_cases hname : key = name
    · subst hname
      refine .inl ⟨e, List.mem_cons_self, ?_, hkey⟩
      simp [lookupExtended, hkey]
    · have hstep : lookupExtended heap name (e :: table) = lookupExtended heap name table := by
        simp [lookupExtended, hkey, hname]
      rw [hstep]
      rcases ih fun e' he' => hread e' (List.mem_cons_of_mem e he') with
        ⟨e', hmem, hlook, hkey'⟩ | ⟨hlook, hnone⟩
      · exact .inl ⟨e', List.mem_cons_of_mem e hmem, hlook, hkey'⟩
      · refine .inr ⟨hlook, List.forall_mem_cons.mpr ⟨?_, hnone⟩⟩
        rw [hkey]
        exact fun h => hname (Option.some.inj h)

theorem mem_listHasKey {values : List (CString × CString)} {name : CString} :
    listHasKey values name = true ↔ name ∈ values.map Prod.fst := by
  simp [listHasKey]

/-- The search adds the properties whose names begin like the name, unless it has them. -/
theorem searchProps_nodes (propName : CString) (len : Nat)
    (hread : ∀ e ∈ table, ∃ name value, heap.read e.key = some name ∧ heap.read e.value = some value)
    (hnames : ∀ e ∈ table, ∀ e' ∈ table, heap.read e.key = heap.read e'.key → e = e')
    (values : List (CString × CString)) :
    ∃ values', searchProps heap propName len values table = some values' ∧
      ((values.map Prod.fst).Nodup → (values'.map Prod.fst).Nodup) ∧
      ∀ name value, (name, value) ∈ values' ↔ (name, value) ∈ values ∨
        name ∉ values.map Prod.fst ∧ SamePrefix len propName name ∧
          ∃ e ∈ table, heap.read e.key = some name ∧ heap.read e.value = some value := by
  induction table generalizing values with
  | nil => exact ⟨values, rfl, id, fun name value => by simp⟩
  | cons e table ih =>
    obtain ⟨key, value, hkey, hvalue⟩ := hread e List.mem_cons_self
    have ih := ih (fun e' he' => hread e' (List.mem_cons_of_mem e he'))
      fun e' he' e'' he'' => hnames e' (List.mem_cons_of_mem e he') e'' (List.mem_cons_of_mem e he'')
    -- a node with the key of this one is this one
    have hown : ∀ e' ∈ table, heap.read e'.key = some key → heap.read e'.value = some value := by
      intro e' he' hkey'
      have heq := hnames e List.mem_cons_self e' (List.mem_cons_of_mem e he') (hkey.trans hkey'.symm)
      rw [← heq]
      exact hvalue
    by_cases hsame : SamePrefix len propName key
    · by_cases hhas : listHasKey values key = true
      · obtain ⟨values', hrun, hnodup, hall⟩ := ih values
        refine ⟨values', by simp [searchProps, hkey, hsame, hhas, hrun], hnodup, fun n v => ?_⟩
        rw [hall]
        have hmem := mem_listHasKey.mp hhas
        constructor
        · rintro (hold | ⟨hnew, hpre, e', he', hread'⟩)
          · exact .inl hold
          · exact .inr ⟨hnew, hpre, e', List.mem_cons_of_mem e he', hread'⟩
        · rintro (hold | ⟨hnew, hpre, e', he', hkey', hvalue'⟩)
          · exact .inl hold
          · rcases List.mem_cons.mp he' with rfl | he'
            · rw [hkey] at hkey'
              cases hkey'
              exact absurd hmem hnew
            · exact .inr ⟨hnew, hpre, e', he', hkey', hvalue'⟩
      · obtain ⟨values', hrun, hnodup, hall⟩ := ih (values ++ [(key, value)])
        have hmem : key ∉ values.map Prod.fst := fun h => hhas (mem_listHasKey.mpr h)
        refine ⟨values', by simp [searchProps, hkey, hvalue, hsame, hhas, hrun], fun hn => ?_,
          fun n v => ?_⟩
        · refine hnodup ?_
          rw [List.map_append, List.nodup_append]
          refine ⟨hn, List.pairwise_singleton _ key, ?_⟩
          rintro a ha b hb rfl
          cases List.mem_singleton.mp hb
          exact hmem ha
        · rw [hall, List.mem_append, List.map_append, List.mem_append, List.mem_singleton]
          constructor
          · rintro ((hold | hnew) | ⟨hnew, hpre, e', he', hread'⟩)
            · exact .inl hold
            · cases hnew
              exact .inr ⟨hmem, hsame, e, List.mem_cons_self, hkey, hvalue⟩
            · exact .inr ⟨fun h => hnew (.inl h), hpre, e', List.mem_cons_of_mem e he', hread'⟩
          · rintro (hold | ⟨hnew, hpre, e', he', hkey', hvalue'⟩)
            · exact .inl (.inl hold)
            · by_cases hn : n = key
              · subst hn
                have hv : v = value := by
                  rcases List.mem_cons.mp he' with rfl | he'
                  · exact Option.some.inj (hvalue'.symm.trans hvalue)
                  · exact Option.some.inj (hvalue'.symm.trans (hown e' he' hkey'))
                exact .inl (.inr (by rw [hv]))
              · rcases List.mem_cons.mp he' with rfl | he'
                · exact absurd (Option.some.inj (hkey'.symm.trans hkey)) hn
                · refine .inr ⟨?_, hpre, e', he', hkey', hvalue'⟩
                  rintro (h | h)
                  · exact hnew h
                  · exact hn (List.mem_singleton.mp h)
    · obtain ⟨values', hrun, hnodup, hall⟩ := ih values
      refine ⟨values', by simp [searchProps, hkey, hsame, hrun], hnodup, fun n v => ?_⟩
      rw [hall]
      constructor
      · rintro (hold | ⟨hnew, hpre, e', he', hread'⟩)
        · exact .inl hold
        · exact .inr ⟨hnew, hpre, e', List.mem_cons_of_mem e he', hread'⟩
      · rintro (hold | ⟨hnew, hpre, e', he', hkey', hvalue'⟩)
        · exact .inl hold
        · rcases List.mem_cons.mp he' with rfl | he'
          · rw [hkey] at hkey'
            cases hkey'
            exact absurd hpre hsame
          · exact .inr ⟨hnew, hpre, e', he', hkey', hvalue'⟩

theorem searchProps_eq {props : CString → Option CString} (h : Holds heap table props)
    (propName : CString) (len : Nat) (values : List (CString × CString)) :
    ∃ values', searchProps heap propName len values table = some values' ∧
      ((values.map Prod.fst).Nodup → (values'.map Prod.fst).Nodup) ∧
      ∀ name value, (name, value) ∈ values' ↔ (name, value) ∈ values ∨
        name ∉ values.map Prod.fst ∧ SamePrefix len propName name ∧ props name = some value := by
  obtain ⟨values', hrun, hnodup, hall⟩ := searchProps_nodes propName len h.readable h.names values
  refine ⟨values', hrun, hnodup, fun name value => ?_⟩
  rw [hall, h.props]

end

/-! ### What is found -/

section
variable {s : State} {tree : Tree}

theorem Sound.exists_context (h : Sound s tree) {ctx : Nat} (hlt : ctx < s.contexts.length) :
    ∃ c scope, s.contexts[ctx]? = some c ∧ tree[ctx]? = some scope ∧ scope.name = c.theName ∧
      scope.parent = c.parentCtx ∧ Holds s.heap c.entries scope.props := by
  obtain ⟨scope, hscope⟩ := h.held ctx _ (List.getElem?_eq_getElem hlt)
  exact ⟨_, scope, List.getElem?_eq_getElem hlt, hscope⟩

/-- What is found above, or here. -/
theorem nearest_iff {restrictScope : Bool} {name value : CString} {ctx : Nat} {scope : Scope}
    (hscope : tree[ctx]? = some scope) :
    Nearest tree restrictScope name value ctx ↔ scope.props name = some value ∨
      scope.props name = none ∧ restrictScope = false ∧
        ∃ parent, scope.parent = some parent ∧ Nearest tree restrictScope name value parent := by
  constructor
  · intro h
    cases h with
    | here hscope' hvalue =>
      rw [hscope] at hscope'
      cases hscope'
      exact .inl hvalue
    | above hscope' hnone hrestrict hparent habove =>
      rw [hscope] at hscope'
      cases hscope'
      exact .inr ⟨hnone, hrestrict, _, hparent, habove⟩
  · rintro (hvalue | ⟨hnone, hrestrict, parent, hparent, habove⟩)
    · exact .here hscope hvalue
    · exact .above hscope hnone hrestrict hparent habove

/-- The search finds the nearest values of the names that begin like the name. -/
theorem ctxGetValues_eq (h : Sound s tree) (restrictScope : Bool) (propName : CString) {isWc : Int}
    (hwc : 0 ≤ isWc) (depth ctx : Nat) (values : List (CString × CString)) (hdepth : ctx < depth)
    (hctx : ctx < s.contexts.length) :
    ∃ values', ctxGetValues s restrictScope propName isWc depth ctx values = some values' ∧
      ((values.map Prod.fst).Nodup → (values'.map Prod.fst).Nodup) ∧
      ∀ name value, (name, value) ∈ values' ↔ (name, value) ∈ values ∨
        name ∉ values.map Prod.fst ∧ SamePrefix isWc.toNat propName name ∧
          Nearest tree restrictScope name value ctx := by
  induction depth generalizing ctx values with
  | zero => exact absurd hdepth (Nat.not_lt_zero ctx)
  | succ depth ih =>
    obtain ⟨c, scope, hc, hscope, -, hparent, hholds⟩ := h.exists_context hctx
    obtain ⟨values₁, hrun, hnodup, hall⟩ := searchProps_eq hholds propName isWc.toNat values
    have hstep : ctxGetValues s restrictScope propName isWc (depth + 1) ctx values =
        match c.parentCtx with
        | some parent =>
            if restrictScope = false then ctxGetValues s restrictScope propName isWc depth parent values₁
            else some values₁
        | none => some values₁ := by
      simp only [ctxGetValues, hc, hwc, hrun, Option.bind_eq_bind, Option.bind_some, if_true, pure,
        true_and]
    -- nothing is looked for above
    have hhere : (c.parentCtx = none ∨ restrictScope = true) → ∀ name value,
        (Nearest tree restrictScope name value ctx ↔ scope.props name = some value) := by
      intro hstop name value
      rw [nearest_iff hscope]
      refine or_iff_left ?_
      rintro ⟨-, hrestrict, parent, habove, -⟩
      rw [hparent] at habove
      rcases hstop with hnone | htrue
      · rw [hnone] at habove
        cases habove
      · rw [hrestrict] at htrue
        cases htrue
    rw [hstep]
    cases hup : c.parentCtx with
    | none =>
      refine ⟨values₁, rfl, hnodup, fun name value => ?_⟩
      rw [hall, hhere (.inl hup)]
    | some parent =>
      by_cases hrestrict : restrictScope = false
      · have hlt := h.above ctx c parent hc hup
        obtain ⟨values', hrun', hnodup', hall'⟩ := ih parent values₁ (by omega) (by omega)
        refine ⟨values', (if_pos hrestrict).trans hrun', fun hn => hnodup' (hnodup hn), fun name value => ?_⟩
        rw [hall', nearest_iff hscope]
        constructor
        · rintro (hfound | ⟨hnew, hsame, habove⟩)
          · rcases (hall name value).mp hfound with hold | ⟨hnew, hsame, hvalue⟩
            · exact .inl hold
            · exact .inr ⟨hnew, hsame, .inl hvalue⟩
          · refine .inr ⟨fun hold => ?_, hsame, .inr ⟨?_, hrestrict, parent, hparent.trans hup, habove⟩⟩
            · obtain ⟨⟨n, v⟩, hmem, rfl⟩ := List.mem_map.mp hold
              exact hnew (List.mem_map_of_mem ((hall n v).mpr (.inl hmem)))
            · refine Option.eq_none_iff_forall_ne_some.mpr fun v hvalue => hnew ?_
              by_cases hold : name ∈ values.map Prod.fst
              · obtain ⟨⟨n, v'⟩, hmem, rfl⟩ := List.mem_map.mp hold
                exact List.mem_map_of_mem ((hall n v').mpr (.inl hmem))
              · exact List.mem_map_of_mem ((hall name v).mpr (.inr ⟨hold, hsame, hvalue⟩))
        · rintro (hold | ⟨hnew, hsame, hvalue | ⟨hnone, -, parent', hparent', habove⟩⟩)
          · exact .inl ((hall name value).mpr (.inl hold))
          · exact .inl ((hall name value).mpr (.inr ⟨hnew, hsame, hvalue⟩))
          · rw [hparent, hup] at hparent'
            cases hparent'
            refine .inr ⟨fun hfound => ?_, hsame, habove⟩
            obtain ⟨⟨n, v⟩, hmem, rfl⟩ := List.mem_map.mp hfound
            rcases (hall n v).mp hmem with hold | ⟨-, -, hvalue⟩
            · exact hnew (List.mem_map_of_mem hold)
            · rw [hnone] at hvalue
              cases hvalue
      · refine ⟨values₁, if_neg hrestrict, hnodup, fun name value => ?_⟩
        rw [hall, hhere (.inr (Bool.eq_true_of_not_eq_false hrestrict))]

/-- The loop finds the start scope, or comes to an end. -/
theorem findScope_eq (h : Sound s tree) (start : CString) (depth ctx : Nat) (hdepth : ctx + 1 < depth)
    (hctx : ctx < s.contexts.length) :
    (∃ found, findScope s start depth (some ctx) = some (some found) ∧ found < s.contexts.length ∧
      ∀ found', Starts tree start ctx found' ↔ found' = found) ∨
    findScope s start depth (some ctx) = some none ∧ ∀ found, ¬ Starts tree start ctx found := by
  induction depth generalizing ctx with
  | zero => exact absurd hdepth (Nat.not_lt_zero _)
  | succ depth ih =>
    obtain ⟨c, scope, hc, hscope, hname, hparent, -⟩ := h.exists_context hctx
    by_cases hown : c.theName = some start
    · refine .inl ⟨ctx, by simp [findScope, hc, hown], hctx, fun found' => ⟨fun hstarts => ?_, ?_⟩⟩
      · cases hstarts with
        | here => rfl
        | above hscope' hne =>
          rw [hscope] at hscope'
          cases hscope'
          exact absurd (hname.trans hown) hne
      · rintro rfl
        exact .here hscope (hname.trans hown)
    · have hstep : findScope s start (depth + 1) (some ctx) = findScope s start depth c.parentCtx := by
        simp [findScope, hc, hown]
      have hup : ∀ found, Starts tree start ctx found ↔
          ∃ parent, c.parentCtx = some parent ∧ Starts tree start parent found := by
        intro found
        constructor
        · intro hstarts
          cases hstarts with
          | here hscope' hname' =>
            rw [hscope] at hscope'
            cases hscope'
            exact absurd (hname.symm.trans hname') hown
          | above hscope' hne hparent' habove =>
            rw [hscope] at hscope'
            cases hscope'
            exact ⟨_, hparent.symm.trans hparent', habove⟩
        · rintro ⟨parent, hparent', habove⟩
          exact .above hscope (fun h => hown (hname.symm.trans h)) (hparent.trans hparent') habove
      rw [hstep]
      cases hc' : c.parentCtx with
      | none =>
        obtain ⟨depth, rfl⟩ := Nat.exists_eq_succ_of_ne_zero (show depth ≠ 0 by omega)
        refine .inr ⟨rfl, fun found hstarts => ?_⟩
        obtain ⟨parent, hparent', -⟩ := (hup found).mp hstarts
        rw [hc'] at hparent'
        cases hparent'
      | some parent =>
        have hlt := h.above ctx c parent hc hc'
        have honly : ∀ found, Starts tree start ctx found ↔ Starts tree start parent found := by
          intro found
          rw [hup, hc']
          exact ⟨fun ⟨_, heq, hstarts⟩ => Option.some.inj heq ▸ hstarts, fun hstarts => ⟨parent, rfl, hstarts⟩⟩
        simp only [honly]
        exact ih parent (by omega) (by omega)

/-- How many characters of a name are compared. -/
def compared (propName : CString) : Nat := if propName.1.getLast? = some 42 then 1 else 0

/-- Of the names in the scopes to look at, those that are compared equal are those that match. -/
def Agrees (tree : Tree) (ctx : Nat) (startScope : Option CString) (restrictScope : Bool)
    (propName : CString) : Prop :=
  ∀ found, Begins tree ctx startScope found → propName.1 ≠ [] ∧
    ∀ name value, Nearest tree restrictScope name value found →
      (SamePrefix (compared propName) propName name ↔ Matches propName name)

theorem scopeOf_eq (h : Sound s tree) {ctx : Nat} (hctx : ctx < s.contexts.length)
    (startScope : Option CString) :
    (∃ found, scopeOf s ctx startScope = some (some found) ∧ found < s.contexts.length ∧
      ∀ found', Begins tree ctx startScope found' ↔ found' = found) ∨
    scopeOf s ctx startScope = some none ∧ ∀ found, ¬ Begins tree ctx startScope found := by
  cases startScope with
  | none => exact .inl ⟨ctx, rfl, hctx, fun found' => Iff.rfl⟩
  | some start =>
    by_cases hempty : start.1 = []
    · refine .inl ⟨ctx, by simp [scopeOf, hempty], hctx, fun found' => by simp [Begins, hempty]⟩
    · simp only [scopeOf, Begins, ne_eq, hempty, not_false_eq_true, if_true]
      exact findScope_eq h start _ ctx (by omega) hctx

/-- The values that are found. -/
theorem getValues_eq (h : Sound s tree) {ctx found : Nat} {startScope : Option CString}
    (hscope : scopeOf s ctx startScope = some (some found)) (hfound : found < s.contexts.length)
    (restrictScope : Bool) {propName : CString} (hname : propName.1 ≠ []) :
    ∃ values, getValues s ctx startScope restrictScope propName =
        some (if values.length = 0 then .unknown else .values values) ∧
      (values.map Prod.fst).Nodup ∧
      ∀ name value, (name, value) ∈ values ↔ SamePrefix (compared propName) propName name ∧
        Nearest tree restrictScope name value found := by
  have hlast := List.getLast?_eq_some_getLast hname
  have hwc : (0 : Int) ≤ if propName.1.getLast hname = 42 then 1 else 0 := by
    split
    · decide
    · decide
  obtain ⟨values, hrun, hnodup, hall⟩ :=
    ctxGetValues_eq h restrictScope propName hwc s.contexts.length found [] hfound hfound
  refine ⟨values, ?_, hnodup List.nodup_nil, fun name value => ?_⟩
  · simp only [getValues, hscope, hlast, hrun, Option.bind_eq_bind, Option.bind_some, pure]
    split <;> rfl
  · have hlen : (if propName.1.getLast hname = 42 then (1 : Int) else 0).toNat = compared propName := by
      rw [compared, hlast]
      by_cases hstar : propName.1.getLast hname = 42
      · simp [hstar]
      · simp [hstar]
    rw [hall, hlen]
    simp

/-- The reply is right if, and only if, the comparison is. -/
theorem answers_iff (h : Sound s tree) {ctx : Nat} (hctx : ctx < s.contexts.length)
    (startScope : Option CString) (restrictScope : Bool) (propName : CString) :
    (∃ reply, getValues s ctx startScope restrictScope propName = some reply ∧
      Answers tree ctx startScope restrictScope propName reply) ↔
      Agrees tree ctx startScope restrictScope propName := by
  rcases scopeOf_eq h hctx startScope with ⟨found, hscope, hfound, honly⟩ | ⟨hscope, hnone⟩
  · by_cases hname : propName.1 = []
    · have hundefined : getValues s ctx startScope restrictScope propName = none := by
        simp only [getValues, hscope, hname, Option.bind_eq_bind, Option.bind_some, List.getLast?_nil,
          Option.bind_none]
      refine iff_of_false ?_ fun hagrees => (hagrees found ((honly found).mpr rfl)).1 hname
      rintro ⟨reply, hreply, -⟩
      rw [hundefined] at hreply
      cases hreply
    · obtain ⟨values, hrun, hnodup, hall⟩ := getValues_eq h hscope hfound restrictScope hname
      have hagrees : Agrees tree ctx startScope restrictScope propName ↔
          ∀ name value, (name, value) ∈ values ↔
            Matches propName name ∧ Nearest tree restrictScope name value found := by
        unfold Agrees
        simp only [honly, forall_eq, hname, ne_eq, not_false_eq_true, true_and, hall, and_congr_left_iff]
      rw [hagrees, hrun]
      constructor
      · rintro ⟨reply, hreply, hanswers⟩ name value
        cases hreply
        split at hanswers
        · rename_i hempty
          obtain ⟨found', hbegins, hno⟩ := hanswers
          cases (honly found').mp hbegins
          cases List.length_eq_zero_iff.mp hempty
          exact iff_of_false List.not_mem_nil (hno name value)
        · obtain ⟨found', hbegins, -, -, hvalues⟩ := hanswers
          cases (honly found').mp hbegins
          exact hvalues name value
      · intro hvalues
        refine ⟨_, rfl, ?_⟩
        split
        · rename_i hempty
          refine ⟨found, (honly found).mpr rfl, fun name value hright => ?_⟩
          have hmem := (hvalues name value).mpr hright
          rw [List.length_eq_zero_iff.mp hempty] at hmem
          cases hmem
        · rename_i hfull
          exact ⟨found, (honly found).mpr rfl, fun hnil => hfull (List.length_eq_zero_iff.mpr hnil),
            hnodup, hvalues⟩
  · have hrun : getValues s ctx startScope restrictScope propName = some .invIdent := by
      simp only [getValues, hscope, Option.bind_eq_bind, Option.bind_some, pure]
    exact iff_of_true ⟨_, hrun, hnone⟩ fun found hbegins => absurd hbegins (hnone found)

end

/-! ### What is set -/

section
variable {s : State} {tree : Tree} {ctx : Nat} {c : Context}

theorem Holds.frame {heap heap' : Heap} {table : List Entry} {props : CString → Option CString}
    (h : Holds heap table props) (hread : ∀ e ∈ table, ∀ p ∈ e.blocks, heap'.read p = heap.read p) :
    Holds heap' table props := by
  have hkey : ∀ e ∈ table, heap'.read e.key = heap.read e.key := fun e he =>
    hread e he e.key (by simp [Entry.blocks])
  have hvalue : ∀ e ∈ table, heap'.read e.value = heap.read e.value := fun e he =>
    hread e he e.value (by simp [Entry.blocks])
  refine ⟨fun e he => ?_, fun e he e' he' heq => ?_, fun name value => ?_⟩
  · rw [hkey e he, hvalue e he]
    exact h.readable e he
  · rw [hkey e he, hkey e' he'] at heq
    exact h.names e he e' he' heq
  · rw [h.props]
    refine exists_congr fun e => and_congr_right fun he => ?_
    rw [hkey e he, hvalue e he]

/-- The table without a name. -/
theorem Holds.without {heap : Heap} {old table : List Entry} {props : CString → Option CString}
    {name : CString} (h : Holds heap old props)
    (hmem : ∀ e, e ∈ table ↔ e ∈ old ∧ heap.read e.key ≠ some name) :
    Holds heap table (Function.update props name none) := by
  refine ⟨fun e he => h.readable e ((hmem e).mp he).1, fun e he e' he' => ?_, fun n v => ?_⟩
  · exact h.names e ((hmem e).mp he).1 e' ((hmem e').mp he').1
  · by_cases hn : n = name
    · subst hn
      rw [Function.update_self]
      refine iff_of_false (fun heq => nomatch heq) ?_
      rintro ⟨e, he, hkey, -⟩
      exact ((hmem e).mp he).2 hkey
    · rw [Function.update_of_ne hn, h.props]
      refine exists_congr fun e => ⟨?_, ?_⟩
      · rintro ⟨he, hkey, hvalue⟩
        exact ⟨(hmem e).mpr ⟨he, fun heq => hn (Option.some.inj (hkey.symm.trans heq))⟩, hkey, hvalue⟩
      · rintro ⟨he, hread⟩
        exact ⟨((hmem e).mp he).1, hread⟩

/-- The table with a name that it did not have. -/
theorem Holds.insert {heap : Heap} {table : List Entry} {props : CString → Option CString}
    {name value : CString} {e : Entry} (h : Holds heap table props) (hnone : props name = none)
    (hkey : heap.read e.key = some name) (hvalue : heap.read e.value = some value) :
    Holds heap (e :: table) (Function.update props name (some value)) := by
  have hother : ∀ e' ∈ table, heap.read e'.key ≠ some name := by
    intro e' he' hkey'
    obtain ⟨-, value', -, hvalue'⟩ := h.readable e' he'
    have hset := (h.props name value').mpr ⟨e', he', hkey', hvalue'⟩
    rw [hnone] at hset
    cases hset
  refine ⟨?_, ?_, fun n v => ?_⟩
  · exact List.forall_mem_cons.mpr ⟨⟨name, value, hkey, hvalue⟩, h.readable⟩
  · intro e₁ hin₁ e₂ hin₂ heq
    rcases List.mem_cons.mp hin₁ with rfl | he₁
    · rcases List.mem_cons.mp hin₂ with rfl | he₂
      · rfl
      · exact absurd (heq.symm.trans hkey) (hother e₂ he₂)
    · rcases List.mem_cons.mp hin₂ with rfl | he₂
      · exact absurd (heq.trans hkey) (hother e₁ he₁)
      · exact h.names e₁ he₁ e₂ he₂ heq
  · by_cases hn : n = name
    · subst hn
      rw [Function.update_self]
      constructor
      · intro heq
        cases heq
        exact ⟨e, List.mem_cons_self, hkey, hvalue⟩
      · rintro ⟨e', he', hkey', hvalue'⟩
        rcases List.mem_cons.mp he' with rfl | he'
        · exact hvalue.symm.trans hvalue'
        · exact absurd hkey' (hother e' he')
    · rw [Function.update_of_ne hn, h.props]
      constructor
      · rintro ⟨e', he', hread⟩
        exact ⟨e', List.mem_cons_of_mem e he', hread⟩
      · rintro ⟨e', he', hkey', hvalue'⟩
        rcases List.mem_cons.mp he' with rfl | he'
        · exact absurd (Option.some.inj (hkey'.symm.trans hkey)) hn
        · exact ⟨e', he', hkey', hvalue'⟩

theorem State.entries_of_some (hc : s.contexts[ctx]? = some c) : s.entries ctx = c.entries := by
  rw [State.entries, hc]
  rfl

theorem State.exists_of_entry {e : Entry} (he : e ∈ s.entries ctx) :
    ∃ c, s.contexts[ctx]? = some c ∧ e ∈ c.entries := by
  cases hc : s.contexts[ctx]? with
  | none =>
    rw [State.entries, hc] at he
    cases he
  | some c => exact ⟨c, rfl, State.entries_of_some hc ▸ he⟩

/-- The strings of the tables are there. -/
theorem Sound.lt_length (h : Sound s tree) {e : Entry} {p : Nat} (he : e ∈ s.entries ctx)
    (hp : p ∈ e.blocks) : p < s.heap.length := by
  obtain ⟨c, hc, hmem⟩ := State.exists_of_entry he
  obtain ⟨scope, -, -, -, hholds⟩ := h.held ctx c hc
  obtain ⟨name, value, hkey, hvalue⟩ := hholds.readable e hmem
  rcases List.mem_cons.mp hp with rfl | hp
  · exact Heap.lt_of_read hkey
  · cases List.mem_singleton.mp hp
    exact Heap.lt_of_read hvalue

/-- The old strings of the name are freed, and no others. -/
theorem setOneValue_eq (h : Sound s tree) (hc : s.contexts[ctx]? = some c) (name value : CString) :
    ∃ (heap : Heap) (table : List Entry), setOneValue s ctx name value =
        some { heap := heap ++ [⟨name, false⟩, ⟨value, false⟩],
               contexts := s.contexts.set ctx
                { c with mappings := some (⟨heap.length, heap.length + 1⟩ :: table) } } ∧
      heap.length = s.heap.length ∧
      (∀ e, e ∈ table ↔ e ∈ c.entries ∧ s.heap.read e.key ≠ some name) ∧
      ∀ i e p, e ∈ s.entries i → (i = ctx → e ∈ table) → p ∈ e.blocks →
        heap.read p = s.heap.read p := by
  obtain ⟨scope, hscope, -, -, hholds⟩ := h.held ctx c hc
  have hentries := State.entries_of_some hc
  rcases lookupExtended_cases name fun e he =>
      (hholds.readable e he).imp fun _ ⟨_, hkey, _⟩ => hkey with
    ⟨old, hmem, hlook, hkey⟩ | ⟨hlook, hnone⟩
  · obtain ⟨-, oldValue, -, hvalue⟩ := hholds.readable old hmem
    have hmem' : old ∈ s.entries ctx := hentries ▸ hmem
    have htwain := h.twain ctx old hmem'
    have hfree := Heap.free_of_read hkey
    have hvalue' : Heap.read (s.heap.set old.key ⟨name, true⟩) old.value = some oldValue := by
      rw [Heap.read_set (Ne.symm htwain), hvalue]
    have hfree' := Heap.free_of_read hvalue'
    refine ⟨(s.heap.set old.key ⟨name, true⟩).set old.value ⟨oldValue, true⟩,
      c.entries.filter (· ≠ old), ?_, by simp, fun e => ?_, fun i e p he hin hp => ?_⟩
    · simp [setOneValue, hc, hlook, removeOld, hfree, hfree']
    · rw [List.mem_filter, decide_eq_true_iff]
      refine and_congr_right fun he => not_congr ⟨fun heq => heq ▸ hkey, fun hname => ?_⟩
      exact hholds.names e he old hmem (hname.trans hkey.symm)
    · have hother : p ∉ old.blocks := by
        intro hold
        obtain ⟨rfl, rfl⟩ := h.apart i ctx e old p he hmem' hp hold
        have := hin rfl
        simp at this
      have hne : p ≠ old.key ∧ p ≠ old.value := by
        simpa [Entry.blocks] using hother
      rw [Heap.read_set hne.2, Heap.read_set hne.1]
  · refine ⟨s.heap, c.entries, ?_, rfl, fun e => ?_, fun _ _ _ _ _ _ => rfl⟩
    · simp [setOneValue, hc, hlook, removeOld]
    · exact ⟨fun he => ⟨he, hnone e he⟩, fun he => he.1⟩

/-- A context gets another table, with one node that is new. -/
theorem Sound.replace {heap : Heap} {c' : Context} {table : List Entry} {new : Entry} {scope : Scope}
    {f : Scope → Scope} (h : Sound s tree) (hc : s.contexts[ctx]? = some c)
    (hscope : tree[ctx]? = some scope) (hname : (f scope).name = c'.theName)
    (hparent : (f scope).parent = c'.parentCtx) (hup : c'.parentCtx = c.parentCtx)
    (hentries : c'.entries = new :: table) (hsub : ∀ e ∈ table, e ∈ c.entries)
    (hnew : ∀ p ∈ new.blocks, s.heap.length ≤ p) (htwain : new.key ≠ new.value)
    (hread : ∀ i e p, e ∈ s.entries i → (i = ctx → e ∈ table) → p ∈ e.blocks →
      heap.read p = s.heap.read p)
    (hholds : Holds heap c'.entries (f scope).props) :
    Sound ⟨heap, s.contexts.set ctx c'⟩ (tree.modify ctx f) := by
  have hlt : ctx < s.contexts.length := (List.getElem?_eq_some_iff.mp hc).1
  have hset : (s.contexts.set ctx c')[ctx]? = some c' := List.getElem?_set_self hlt
  have hsplit : ∀ i e, e ∈ State.entries ⟨heap, s.contexts.set ctx c'⟩ i →
      i = ctx ∧ e = new ∨ e ∈ s.entries i := by
    intro i e he
    by_cases hi : i = ctx
    · subst hi
      rw [State.entries_of_some hset, hentries] at he
      rcases List.mem_cons.mp he with rfl | he
      · exact .inl ⟨rfl, rfl⟩
      · exact .inr (State.entries_of_some hc ▸ hsub e he)
    · refine .inr ?_
      rw [State.entries, List.getElem?_set_ne (Ne.symm hi)] at he
      exact he
  refine ⟨by simp [h.size], fun i c₁ hc₁ => ?_, fun i c₁ parent hc₁ hparent₁ => ?_, ?_, ?_⟩
  · by_cases hi : i = ctx
    · subst hi
      rw [hset] at hc₁
      cases hc₁
      refine ⟨f scope, ?_, hname, hparent, hholds⟩
      simp [hscope]
    · rw [List.getElem?_set_ne (Ne.symm hi)] at hc₁
      obtain ⟨scope₁, hscope₁, hname₁, hparent₁, hholds₁⟩ := h.held i c₁ hc₁
      refine ⟨scope₁, ?_, hname₁, hparent₁, hholds₁.frame fun e he p hp => ?_⟩
      · simp [hscope₁, Ne.symm hi]
      · exact hread i e p (State.entries_of_some hc₁ ▸ he) (fun heq => absurd heq hi) hp
  · by_cases hi : i = ctx
    · subst hi
      rw [hset] at hc₁
      cases hc₁
      exact h.above i c parent hc (hup ▸ hparent₁)
    · rw [List.getElem?_set_ne (Ne.symm hi)] at hc₁
      exact h.above i c₁ parent hc₁ hparent₁
  · intro i j e e' p he he' hp hp'
    rcases hsplit i e he with ⟨rfl, rfl⟩ | hold
    · rcases hsplit j e' he' with ⟨rfl, rfl⟩ | hold'
      · exact ⟨rfl, rfl⟩
      · exact absurd (h.lt_length hold' hp') (Nat.not_lt.mpr (hnew p hp))
    · rcases hsplit j e' he' with ⟨rfl, rfl⟩ | hold'
      · exact absurd (h.lt_length hold hp) (Nat.not_lt.mpr (hnew p hp'))
      · exact h.apart i j e e' p hold hold' hp hp'
  · intro i e he
    rcases hsplit i e he with ⟨-, rfl⟩ | hold
    · exact htwain
    · exact h.twain i e hold

theorem sound_setOneValue (h : Sound s tree) (hctx : ctx < s.contexts.length) (name value : CString) :
    ∃ s', setOneValue s ctx name value = some s' ∧ Sound s' (tree.modify ctx (·.set name value)) := by
  obtain ⟨c, scope, hc, hscope, hname, hparent, hholds⟩ := h.exists_context hctx
  obtain ⟨heap, table, hrun, hlen, hmem, hframe⟩ := setOneValue_eq h hc name value
  refine ⟨_, hrun, ?_⟩
  have hentries := State.entries_of_some hc
  -- the strings that stay are where they were
  have hread : ∀ i e p, e ∈ s.entries i → (i = ctx → e ∈ table) → p ∈ e.blocks →
      Heap.read (heap ++ [⟨name, false⟩, ⟨value, false⟩]) p = s.heap.read p := by
    intro i e p he hin hp
    rw [Heap.read_append _ (hlen ▸ h.lt_length he hp)]
    exact hframe i e p he hin hp
  have hkey : Heap.read (heap ++ [⟨name, false⟩, ⟨value, false⟩]) heap.length = some name := by
    simp [Heap.read]
  have hvalue : Heap.read (heap ++ [⟨name, false⟩, ⟨value, false⟩]) (heap.length + 1) = some value := by
    simp [Heap.read]
  refine h.replace hc hscope hname hparent rfl rfl (fun e he => ((hmem e).mp he).1) ?_ ?_ hread ?_
  · intro p hp
    simp only [Entry.blocks, List.mem_cons, List.not_mem_nil, or_false] at hp
    omega
  · exact Nat.ne_of_lt (Nat.lt_succ_self heap.length)
  · have hkept := (hholds.without hmem).frame fun e he p hp =>
      hread ctx e p (hentries ▸ ((hmem e).mp he).1) (fun _ => he) hp
    have hinserted := hkept.insert (e := ⟨heap.length, heap.length + 1⟩)
      (Function.update_self name none scope.props) hkey hvalue
    rw [Function.update_idem] at hinserted
    exact hinserted

/-! ### Runs -/

/-- What `delete_values` goes for: the names that begin with what is before the first star. -/
def Covers (propName name : CString) : Prop :=
  if 42 ∈ propName.1 then SamePrefix (propName.1.idxOf 42) propName name else name = propName

/-- An operation on a context that there is, whose items point to their texts as they should, and
which has nothing to delete. -/
def Meets (tree : Tree) : Op → Prop
  | .setOneValue ctx _ _ => ctx < tree.length
  | .setValues ctx values => ctx < tree.length ∧ ∀ nvp ∈ values, nvp.bytes = nvp.text
  | .deleteValues ctx propName => ∃ scope, tree[ctx]? = some scope ∧
      ∀ name, Covers propName name → scope.props name = none
  | .createChild ctx _ => ctx < tree.length

/-- All operations do, each in the state that it finds. -/
def AllMeet (tree : Tree) : List Op → Prop
  | [] => True
  | op :: ops => Meets tree op ∧ AllMeet (tree.apply op) ops

theorem Matches.covers {propName name : CString} (h : Matches propName name) :
    Covers propName name := by
  unfold Covers SamePrefix
  rcases h with rfl | ⟨hstar, hbegins⟩
  · split
    · rfl
    · rfl
  · have hmem := List.mem_of_getLast? hstar
    have hlt : propName.1.idxOf 42 < propName.1.length := List.idxOf_lt_length_of_mem hmem
    rw [if_pos hmem]
    obtain ⟨rest, hrest⟩ := hbegins
    have hlen : propName.1.idxOf 42 ≤ propName.1.dropLast.length := by
      rw [List.length_dropLast]
      omega
    rw [← hrest, List.take_append_of_le_length hlen, List.dropLast_eq_take, List.take_take,
      Nat.min_eq_left (by omega)]

theorem sound_setValues (h : Sound s tree) (hctx : ctx < s.contexts.length) {values : List NamedValue}
    (hbytes : ∀ nvp ∈ values, nvp.bytes = nvp.text) :
    ∃ s', setValues s ctx values = some s' ∧ Sound s' (tree.apply (.setValues ctx values)) := by
  induction values generalizing s tree with
  | nil => exact ⟨s, rfl, h⟩
  | cons nvp values ih =>
    obtain ⟨s₁, hrun, hsound⟩ := sound_setOneValue h hctx nvp.name nvp.bytes
    have hctx₁ : ctx < s₁.contexts.length := by
      rw [hsound.size, List.length_modify, ← h.size]
      exact hctx
    obtain ⟨s', hrest, hsound'⟩ := ih hsound hctx₁ fun nvp' h' => hbytes nvp' (List.mem_cons_of_mem nvp h')
    refine ⟨s', by simp [setValues, hrun, hrest], ?_⟩
    rw [hbytes nvp List.mem_cons_self] at hsound'
    exact hsound'

theorem deleteProps_of_none {heap : Heap} {propName : CString} {len : Nat} {table : List Entry}
    (h : ∀ e ∈ table, ∃ key, heap.read e.key = some key ∧ ¬ SamePrefix len propName key) :
    deleteProps heap propName len table = some () := by
  induction table with
  | nil => rfl
  | cons e table ih =>
    obtain ⟨key, hkey, hother⟩ := h e List.mem_cons_self
    simp [deleteProps, hkey, hother, ih fun e' he' => h e' (List.mem_cons_of_mem e he')]

/-- Nothing to delete is left as it is. -/
theorem sound_deleteValues (h : Sound s tree) {propName : CString}
    (hm : Meets tree (.deleteValues ctx propName)) :
    deleteValues s ctx propName = some s ∧ Sound s (tree.apply (.deleteValues ctx propName)) := by
  obtain ⟨scope, hscope, hnone⟩ := hm
  constructor
  · have hlt : ctx < s.contexts.length := h.size ▸ (List.getElem?_eq_some_iff.mp hscope).1
    obtain ⟨c, scope', hc, hscope', -, -, hholds⟩ := h.exists_context hlt
    rw [hscope] at hscope'
    cases hscope'
    have hkeys : ∀ e ∈ c.entries, ∃ key, s.heap.read e.key = some key ∧ ¬ Covers propName key := by
      intro e he
      obtain ⟨key, value, hkey, hvalue⟩ := hholds.readable e he
      refine ⟨key, hkey, fun hcovers => ?_⟩
      have hset := (hholds.props key value).mpr ⟨e, he, hkey, hvalue⟩
      rw [hnone key hcovers] at hset
      cases hset
    cases hmappings : c.mappings with
    | none => simp [deleteValues, hc, hmappings]
    | some table =>
      have htable : c.entries = table := by
        rw [Context.entries, hmappings]
        rfl
      rw [htable] at hkeys
      by_cases hstar : 42 ∈ propName.1
      · have hothers : ∀ e ∈ table, ∃ key, s.heap.read e.key = some key ∧
            ¬ SamePrefix (propName.1.idxOf 42) propName key := by
          intro e he
          obtain ⟨key, hkey, hother⟩ := hkeys e he
          rw [Covers, if_pos hstar] at hother
          exact ⟨key, hkey, hother⟩
        have hprops := deleteProps_of_none hothers
        simp [deleteValues, hc, hmappings, hstar, hprops]
      · rcases lookupExtended_cases propName fun e he => (hkeys e he).imp fun _ hkey => hkey.1
          with ⟨e, he, -, hkey⟩ | ⟨hlook, -⟩
        · obtain ⟨key, hkey', hother⟩ := hkeys e he
          rw [hkey] at hkey'
          cases hkey'
          exact absurd (Matches.covers (.inl rfl)) hother
        · simp [deleteValues, hc, hmappings, hstar, hlook]
  · have hsame : scope.delete propName = scope := by
      have hprops : (fun name => if Matches propName name then none else scope.props name) =
          scope.props := by
        funext name
        split
        · rename_i hmatches
          exact (hnone name hmatches.covers).symm
        · rfl
      rw [Scope.delete, hprops]
    have htree : tree.apply (.deleteValues ctx propName) = tree := by
      refine List.ext_getElem? fun i => ?_
      rw [Tree.apply, List.getElem?_modify]
      by_cases hi : ctx = i
      · subst hi
        simp [hscope, hsame]
      · simp [hi]
    rw [htree]
    exact h

theorem sound_createChild (h : Sound s tree) (hctx : ctx < s.contexts.length)
    (ctxName : Option CString) :
    ∃ s', createChild s ctx ctxName = some s' ∧ Sound s' (tree.apply (.createChild ctx ctxName)) := by
  obtain ⟨c, scope, hc, -⟩ := h.exists_context hctx
  let c' : Context := { c with children := s.contexts.length :: c.children }
  let child : Context := ⟨ctxName, some ctx, none, []⟩
  have hrun : createChild s ctx ctxName = some ⟨s.heap, s.contexts.set ctx c' ++ [child]⟩ := by
    simp only [createChild, hc, Option.bind_eq_bind, Option.bind_some]
    rfl
  refine ⟨_, hrun, ?_⟩
  -- the new context, and old ones, of which one has a child more
  have hget : ∀ i c₁, (s.contexts.set ctx c' ++ [child])[i]? = some c₁ →
      (∃ c₂, s.contexts[i]? = some c₂ ∧ c₁.theName = c₂.theName ∧ c₁.parentCtx = c₂.parentCtx ∧
        c₁.entries = c₂.entries) ∨ i = s.contexts.length ∧ c₁ = child := by
    intro i c₁ hc₁
    rcases Nat.lt_trichotomy i s.contexts.length with hlt | heq | hgt
    · rw [List.getElem?_append_left (by simpa using hlt)] at hc₁
      by_cases hi : i = ctx
      · subst hi
        rw [List.getElem?_set_self hlt] at hc₁
        cases hc₁
        exact .inl ⟨c, hc, rfl, rfl, rfl⟩
      · rw [List.getElem?_set_ne (Ne.symm hi)] at hc₁
        exact .inl ⟨c₁, hc₁, rfl, rfl, rfl⟩
    · subst heq
      rw [List.getElem?_append_right (by simp)] at hc₁
      simp only [List.length_set, Nat.sub_self, List.getElem?_cons_zero, Option.some.injEq] at hc₁
      exact .inr ⟨rfl, hc₁.symm⟩
    · rw [List.getElem?_eq_none (by simp; omega)] at hc₁
      cases hc₁
  have hentries : ∀ i e, e ∈ State.entries ⟨s.heap, s.contexts.set ctx c' ++ [child]⟩ i →
      e ∈ s.entries i := by
    intro i e he
    obtain ⟨c₁, hc₁, he⟩ := State.exists_of_entry he
    rcases hget i c₁ hc₁ with ⟨c₂, hc₂, -, -, hsame⟩ | ⟨-, rfl⟩
    · rw [State.entries_of_some hc₂, ← hsame]
      exact he
    · cases he
  refine ⟨by simp [Tree.apply, h.size], fun i c₁ hc₁ => ?_, fun i c₁ parent hc₁ hup => ?_, ?_, ?_⟩
  · rcases hget i c₁ hc₁ with ⟨c₂, hc₂, hname, hparent, hsame⟩ | ⟨rfl, rfl⟩
    · obtain ⟨scope₂, hscope₂, hname₂, hparent₂, hholds⟩ := h.held i c₂ hc₂
      have hlt : i < tree.length := (List.getElem?_eq_some_iff.mp hscope₂).1
      refine ⟨scope₂, ?_, hname₂.trans hname.symm, hparent₂.trans hparent.symm, hsame ▸ hholds⟩
      rw [Tree.apply, List.getElem?_append_left hlt, hscope₂]
    · refine ⟨⟨ctxName, some ctx, fun _ => none⟩, ?_, rfl, rfl, ?_⟩
      · rw [h.size, Tree.apply, List.getElem?_append_right (Nat.le_refl _), Nat.sub_self]
        rfl
      · refine ⟨fun e he => (nomatch he), fun e he => (nomatch he), fun name value => ?_⟩
        exact iff_of_false (fun heq => nomatch heq) fun ⟨e, he, _⟩ => nomatch he
  · rcases hget i c₁ hc₁ with ⟨c₂, hc₂, -, hparent, -⟩ | ⟨rfl, rfl⟩
    · exact h.above i c₂ parent hc₂ (hparent ▸ hup)
    · cases hup
      exact hctx
  · intro i j e e' p he he' hp hp'
    exact h.apart i j e e' p (hentries i e he) (hentries j e' he') hp hp'
  · exact fun i e he => h.twain i e (hentries i e he)

theorem step_sound (h : Sound s tree) {op : Op} (hm : Meets tree op) :
    ∃ s', step s op = some s' ∧ Sound s' (tree.apply op) := by
  cases op with
  | setOneValue ctx propName value => exact sound_setOneValue h (h.size ▸ hm) propName value
  | setValues ctx values => exact sound_setValues h (h.size ▸ hm.1) hm.2
  | deleteValues ctx propName => exact ⟨s, sound_deleteValues h hm⟩
  | createChild ctx ctxName => exact sound_createChild h (h.size ▸ hm) ctxName

theorem run_sound (h : Sound s tree) {ops : List Op} (hm : AllMeet tree ops) :
    ∃ s', run s ops = some s' ∧ Sound s' (ops.foldl Tree.apply tree) := by
  induction ops generalizing s tree with
  | nil => exact ⟨s, rfl, h⟩
  | cons op ops ih =>
    obtain ⟨s₁, hstep, hsound⟩ := step_sound h hm.1
    obtain ⟨s', hrun, hsound'⟩ := ih hsound hm.2
    exact ⟨s', by simp [run, hstep, hrun], hsound'⟩

theorem sound_initial : Sound initial [⟨none, none, fun _ => none⟩] := by
  have hnone : ∀ i e, e ∉ initial.entries i := by
    rintro (_ | i) e he
    · cases he
    · cases he
  refine ⟨rfl, fun i c hc => ?_, fun i c parent hc hup => ?_, fun i j e e' p he => ?_, fun i e he => ?_⟩
  · rcases i with _ | i
    · cases hc
      refine ⟨_, rfl, rfl, rfl, fun e he => (nomatch he), fun e he => (nomatch he), fun name value => ?_⟩
      exact iff_of_false (fun heq => nomatch heq) fun ⟨e, he, _⟩ => nomatch he
    · cases hc
  · rcases i with _ | i
    · cases hc
      cases hup
    · cases hc
  · exact absurd he (hnone i e)
  · exact absurd he (hnone i e)

end

/-- If no operation has anything to delete, and the pointers of the items are their texts, no string is
used after it is freed, and the values that are found are the right ones if, and only if, the comparison
of no or one character tells the names in the scopes apart as the pattern does. -/
theorem getValues_after_run {ops : List Op} (h : AllMeet [⟨none, none, fun _ => none⟩] ops) :
    ∃ s, run initial ops = some s ∧ ∀ ctx < s.contexts.length,
      ∀ (startScope : Option CString) (restrictScope : Bool) (propName : CString),
        (∃ reply, getValues s ctx startScope restrictScope propName = some reply ∧
          Answers (history ops) ctx startScope restrictScope propName reply) ↔
          Agrees (history ops) ctx startScope restrictScope propName := by
  obtain ⟨s, hrun, hsound⟩ := run_sound sound_initial h
  exact ⟨s, hrun, fun ctx hctx startScope restrictScope propName =>
    answers_iff hsound hctx startScope restrictScope propName⟩

/-- A parent with `a = b`, a child with `a = c` and nothing to delete, searched for `a*`. -/
theorem getValues_after_child :
    let ops : List Op := [.setOneValue 0 ⟨[97], by decide⟩ ⟨[98], by decide⟩, .createChild 0 none,
      .setOneValue 1 ⟨[97], by decide⟩ ⟨[99], by decide⟩, .deleteValues 1 ⟨[120], by decide⟩]
    ∃ s, run initial ops = some s ∧ ∃ reply, getValues s 1 none false ⟨[97, 42], by decide⟩ = some reply ∧
      Answers (history ops) 1 none false ⟨[97, 42], by decide⟩ reply := by
  intro ops
  have hmeet : AllMeet [⟨none, none, fun _ => none⟩] ops := by
    refine ⟨Nat.zero_lt_one, Nat.zero_lt_one, Nat.one_lt_two, ⟨_, rfl, fun name hcovers => ?_⟩, trivial⟩
    rw [Covers, if_neg (by decide)] at hcovers
    subst hcovers
    decide
  obtain ⟨s, hrun, hget⟩ := getValues_after_run hmeet
  have hctx : 1 < s.contexts.length := by
    cases hrun
    decide
  refine ⟨s, hrun, (hget 1 hctx none false ⟨[97, 42], by decide⟩).mpr fun found hbegins => ?_⟩
  refine ⟨List.cons_ne_nil _ _, fun name value _ => ?_⟩
  rcases name with ⟨_ | ⟨b, name⟩, h0⟩
  · simp [compared, SamePrefix, Matches]
  · have hfirst : b = 97 → name = [42] → b = 97 := fun h _ => h
    simpa [compared, SamePrefix, Matches, eq_comm] using hfirst

/-- With `ab = x` and `cd = y`, both are found for `ab`. -/
theorem getValues_not_exact :
    ∃ s reply, run initial [.setOneValue 0 ⟨[97, 98], by decide⟩ ⟨[120], by decide⟩,
        .setOneValue 0 ⟨[99, 100], by decide⟩ ⟨[121], by decide⟩] = some s ∧
      getValues s 0 none false ⟨[97, 98], by decide⟩ = some reply ∧
      ¬ Answers (history [.setOneValue 0 ⟨[97, 98], by decide⟩ ⟨[120], by decide⟩,
        .setOneValue 0 ⟨[99, 100], by decide⟩ ⟨[121], by decide⟩]) 0 none false ⟨[97, 98], by decide⟩
          reply := by
  refine ⟨_, .values [(⟨[99, 100], by decide⟩, ⟨[121], by decide⟩), (⟨[97, 98], by decide⟩, ⟨[120], by decide⟩)],
    rfl, by decide, ?_⟩
  rintro ⟨found, -, -, -, hall⟩
  have h := ((hall ⟨[99, 100], by decide⟩ ⟨[121], by decide⟩).mp List.mem_cons_self).1
  revert h
  decide

end ORBit2.Contexts
