import Mathlib

/-! Content that lies scattered in a memory: pieces, each an address and a length, which are read
one behind the other. -/

set_option autoImplicit false

namespace Gather

abbrev Mem (α : Type) := Nat → α

/-- An address and a length. -/
abbrev Piece := Nat × Nat

section
variable {α : Type}

/-- The addresses that are read, in their order. -/
def cells (pieces : List Piece) : List Nat := pieces.flatMap fun p => List.range' p.1 p.2

def load (mem : Mem α) (a n : Nat) : List α := (List.range' a n).map mem

def gather (mem : Mem α) (pieces : List Piece) : List α :=
  pieces.flatMap fun p => load mem p.1 p.2

def store (mem : Mem α) (a : Nat) (content : List α) : Mem α := fun b =>
  if a ≤ b then content.getD (b - a) (mem b) else mem b

/-- One more piece, joined with the last one if it begins where that has stopped. -/
def push (pieces : List Piece) (stop a n : Nat) : List Piece :=
  if pieces ≠ [] ∧ a = stop then pieces.modify (pieces.length - 1) fun p => (p.1, p.2 + n)
  else pieces ++ [(a, n)]

/-- The last piece stops there. -/
def Stops (pieces : List Piece) (stop : Nat) : Prop :=
  ∃ before p, pieces = before ++ [p] ∧ stop = p.1 + p.2

/-- `content` in place of as many elements from the `k`-th on. -/
def overwrite (l : List α) (k : Nat) (content : List α) : List α :=
  l.take k ++ content ++ l.drop (k + content.length)

theorem gather_eq (mem : Mem α) (pieces : List Piece) :
    gather mem pieces = (cells pieces).map mem := by
  simp only [gather, cells, List.map_flatMap, load]

theorem cells_append (pieces pieces' : List Piece) :
    cells (pieces ++ pieces') = cells pieces ++ cells pieces' := List.flatMap_append

@[simp] theorem cells_single (a n : Nat) : cells [(a, n)] = List.range' a n := by
  simp [cells]

@[simp] theorem load_length (mem : Mem α) (a n : Nat) : (load mem a n).length = n := by
  simp [load]

theorem modify_concat {β : Type} (before : List β) (b : β) (f : β → β) :
    (before ++ [b]).modify ((before ++ [b]).length - 1) f = before ++ [f b] := by
  induction before with
  | nil => rfl
  | cons c before ih =>
    have hlen : (c :: before ++ [b]).length - 1 = (before ++ [b]).length - 1 + 1 := by
      simp
    rw [hlen, List.cons_append, List.modify_succ_cons, ih, List.cons_append]

section
variable {pieces : List Piece} {stop : Nat} (a n : Nat)

theorem cells_push (h : Stops pieces stop) :
    cells (push pieces stop a n) = cells pieces ++ List.range' a n := by
  obtain ⟨before, p, rfl, rfl⟩ := h
  unfold push
  split
  · next hjoin =>
    rw [modify_concat, cells_append, cells_append, List.append_assoc, hjoin.2]
    obtain ⟨base, len⟩ := p
    rw [cells_single, cells_single, List.range'_append_1]
  · rw [cells_append, cells_single]

theorem stops_push (h : Stops pieces stop) : Stops (push pieces stop a n) (a + n) := by
  obtain ⟨before, p, rfl, rfl⟩ := h
  unfold push
  split
  · next hjoin =>
    refine ⟨before, (p.1, p.2 + n), modify_concat .., ?_⟩
    rw [hjoin.2, Nat.add_assoc]
  · exact ⟨before ++ [p], (a, n), rfl, rfl⟩

theorem length_push_le : (push pieces stop a n).length ≤ pieces.length + 1 := by
  unfold push
  split <;> simp

end

section
variable {mem : Mem α} {a : Nat} {content : List α}

theorem store_of_outside {b : Nat} (h : b < a ∨ a + content.length ≤ b) :
    store mem a content b = mem b := by
  unfold store
  split
  · have hlen : content.length ≤ b - a := by omega
    simp [List.getElem?_eq_none hlen]
  · rfl

theorem load_store_self : load (store mem a content) a content.length = content := by
  apply List.ext_getElem
  · simp
  · intro i hi hi'
    simp [load, store, List.getElem?_eq_getElem hi']

theorem load_congr {mem' : Mem α} {n : Nat} (h : ∀ b, a ≤ b → b < a + n → mem b = mem' b) :
    load mem a n = load mem' a n :=
  List.map_congr_left fun b hb => h b (List.mem_range'_1.mp hb).1 (List.mem_range'_1.mp hb).2

/-- What lies elsewhere is not touched. -/
theorem map_store {l : List Nat} (h : ∀ b ∈ l, b < a ∨ a + content.length ≤ b) :
    l.map (store mem a content) = l.map mem :=
  List.map_congr_left fun b hb => store_of_outside (h b hb)

/-- A place that occurs once among what is read. -/
theorem map_store_once {before after : List Nat}
    (hb : ∀ b ∈ before, b < a ∨ a + content.length ≤ b)
    (ha : ∀ b ∈ after, b < a ∨ a + content.length ≤ b) :
    (before ++ List.range' a content.length ++ after).map (store mem a content) =
      overwrite ((before ++ List.range' a content.length ++ after).map mem) before.length content := by
  have hself : (List.range' a content.length).map (store mem a content) = content := load_store_self
  rw [List.map_append, List.map_append, map_store hb, map_store ha, hself, overwrite]
  simp [List.drop_append]

end

end

end Gather
