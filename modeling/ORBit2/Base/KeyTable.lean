import ORBit2.Base.Outcomes

/-! A hash table whose keys are compared by a function of its user, which may fail. It is not
assumed that equal keys are equal to the same keys. The nodes are in one list: those of other
buckets have keys that are not equal. -/

set_option autoImplicit false

namespace KeyTable

structure Node (κ ν : Type) where
  key : κ
  value : ν
  deriving DecidableEq, Repr

section
variable {κ ν ε : Type}

/-- The value of the first node whose key is equal to the one that is looked for. -/
@[grind =] def lookup (equal : κ → Except ε Bool) : List (Node κ ν) → Except ε (Option ν)
  | [] => .ok none
  | n :: nodes => do
      if ← equal n.key then return some n.value
      lookup equal nodes

/-- A key that is there already stays, with the new value. -/
@[grind =] def insert (equal : κ → Except ε Bool) (key : κ) (value : ν) :
    List (Node κ ν) → Except ε (List (Node κ ν))
  | [] => .ok [⟨key, value⟩]
  | n :: nodes => do
      if ← equal n.key then return { n with value := value } :: nodes
      let nodes ← insert equal key value nodes
      return n :: nodes

@[grind =] def remove (equal : κ → Except ε Bool) : List (Node κ ν) → Except ε (List (Node κ ν))
  | [] => .ok []
  | n :: nodes => do
      if ← equal n.key then return nodes
      let nodes ← remove equal nodes
      return n :: nodes

variable {equal : κ → Except ε Bool} {before after nodes : List (Node κ ν)} {n : Node κ ν}

/-- No key is equal, or there is a first one that is. -/
theorem miss_or_hit (h : ∀ m ∈ nodes, ∃ b, equal m.key = .ok b) :
    (∀ m ∈ nodes, equal m.key = .ok false) ∨ ∃ before n after, nodes = before ++ n :: after ∧
      (∀ m ∈ before, equal m.key = .ok false) ∧ equal n.key = .ok true := by
  induction nodes with
  | nil => exact .inl (by simp)
  | cons n nodes ih =>
    obtain ⟨⟨b, hb⟩, hrest⟩ := List.forall_mem_cons.mp h
    cases b with
    | true => exact .inr ⟨[], n, nodes, rfl, by simp, hb⟩
    | false =>
      rcases ih hrest with hmiss | ⟨before, m, after, rfl, hbefore, hm⟩
      · exact .inl (List.forall_mem_cons.mpr ⟨hb, hmiss⟩)
      · exact .inr ⟨n :: before, m, after, rfl, List.forall_mem_cons.mpr ⟨hb, hbefore⟩, hm⟩

section
variable (h : ∀ m ∈ nodes, equal m.key = .ok false)
include h

theorem lookup_miss : lookup equal nodes = .ok none := by
  induction nodes with
  | nil => rfl
  | cons n nodes ih =>
    obtain ⟨hn, hrest⟩ := List.forall_mem_cons.mp h
    rw [lookup, hn]
    exact ih hrest

theorem insert_miss (key : κ) (value : ν) :
    insert equal key value nodes = .ok (nodes ++ [⟨key, value⟩]) := by
  induction nodes with
  | nil => rfl
  | cons n nodes ih =>
    obtain ⟨hn, hrest⟩ := List.forall_mem_cons.mp h
    rw [insert, hn, ih hrest]
    rfl

theorem remove_miss : remove equal nodes = .ok nodes := by
  induction nodes with
  | nil => rfl
  | cons n nodes ih =>
    obtain ⟨hn, hrest⟩ := List.forall_mem_cons.mp h
    rw [remove, hn, ih hrest]
    rfl

end

section
variable (hb : ∀ m ∈ before, equal m.key = .ok false) (hn : equal n.key = .ok true)
include hb hn

theorem lookup_hit : lookup equal (before ++ n :: after) = .ok (some n.value) := by
  induction before with
  | nil =>
    rw [List.nil_append, lookup, hn]
    rfl
  | cons m before ih =>
    obtain ⟨hm, hrest⟩ := List.forall_mem_cons.mp hb
    rw [List.cons_append, lookup, hm]
    exact ih hrest

theorem insert_hit (key : κ) (value : ν) :
    insert equal key value (before ++ n :: after) = .ok (before ++ ⟨n.key, value⟩ :: after) := by
  induction before with
  | nil =>
    rw [List.nil_append, insert, hn]
    rfl
  | cons m before ih =>
    obtain ⟨hm, hrest⟩ := List.forall_mem_cons.mp hb
    rw [List.cons_append, insert, hm, ih hrest]
    rfl

theorem remove_hit : remove equal (before ++ n :: after) = .ok (before ++ after) := by
  induction before with
  | nil =>
    rw [List.nil_append, remove, hn]
    rfl
  | cons m before ih =>
    obtain ⟨hm, hrest⟩ := List.forall_mem_cons.mp hb
    rw [List.cons_append, remove, hm, ih hrest]
    rfl

end

/-- What is found is the value of a node. -/
theorem lookup_mem {value : ν} (h : lookup equal nodes = .ok (some value)) :
    ∃ m ∈ nodes, m.value = value := by
  induction nodes with
  | nil => cases h
  | cons n nodes ih =>
    rw [lookup] at h
    cases hn : equal n.key with
    | error fault =>
      rw [hn] at h
      cases h
    | ok b =>
      rw [hn] at h
      cases b with
      | true =>
        cases h
        exact ⟨n, List.mem_cons_self, rfl⟩
      | false =>
        obtain ⟨m, hm, hvalue⟩ := ih h
        exact ⟨m, List.mem_cons_of_mem _ hm, hvalue⟩

/-- The values behind an insertion. -/
theorem insert_mem {key : κ} {value : ν} {nodes' : List (Node κ ν)}
    (h : insert equal key value nodes = .ok nodes') {m : Node κ ν} (hm : m ∈ nodes') :
    m.value = value ∨ ∃ m' ∈ nodes, m'.value = m.value := by
  induction nodes generalizing nodes' with
  | nil =>
    cases h
    obtain rfl := List.mem_singleton.mp hm
    exact .inl rfl
  | cons n nodes ih =>
    rw [insert] at h
    obtain ⟨b, -, h⟩ := Outcomes.of_bind h
    cases b with
    | true =>
      cases h
      rcases List.mem_cons.mp hm with rfl | hm
      · exact .inl rfl
      · exact .inr ⟨m, List.mem_cons_of_mem _ hm, rfl⟩
    | false =>
      obtain ⟨rest, hrest, h⟩ := Outcomes.of_bind h
      cases h
      rcases List.mem_cons.mp hm with rfl | hm
      · exact .inr ⟨m, List.mem_cons_self, rfl⟩
      · rcases ih hrest hm with hv | ⟨m', hm', hv⟩
        · exact .inl hv
        · exact .inr ⟨m', List.mem_cons_of_mem _ hm', hv⟩

end

end KeyTable
