import Mathlib

/-! Ordered trees, finite or not, given by what each node shows: their beginnings, when two of
them unfold to the same tree, and which of them are finite. -/

set_option autoImplicit false

namespace Unfolding

/-- What a node shows. -/
structure View (L α : Type) where
  label : L
  children : List α

/-- The beginning of a tree. -/
inductive Beginning (L : Type) where
  | cut
  | node (label : L) (children : List (Beginning L))

section
variable {L α β : Type}

/-- The tree below a node, down to a depth. -/
@[grind =] def unfold (out : α → View L α) : Nat → α → Beginning L
  | 0, _ => .cut
  | n+1, a => .node (out a).label ((out a).children.map (unfold out n))

/-- Two nodes unfold to the same tree. -/
def Same (out : α → View L α) (out' : β → View L β) (a : α) (b : β) : Prop :=
  ∀ n, unfold out n a = unfold out' n b

/-- `b` hangs below `a`. -/
def Child (out : α → View L α) (b a : α) : Prop := b ∈ (out a).children

/-- The tree below a node ends on every path. -/
def Finite (out : α → View L α) (a : α) : Prop := Acc (Child out) a

variable {out : α → View L α} {out' : β → View L β} {a : α} {b : β}

theorem Same.node (h : Same out out' a b) (n : Nat) :
    (out a).label = (out' b).label ∧
      (out a).children.map (unfold out n) = (out' b).children.map (unfold out' n) := by
  have hn := h (n+1)
  rw [unfold, unfold, Beginning.node.injEq] at hn
  exact hn

theorem Same.label (h : Same out out' a b) : (out a).label = (out' b).label := (h.node 0).1

theorem forall₂_of_map {γ : Type} {f : Nat → α → γ} {g : Nat → β → γ} {l : List α} {l' : List β}
    (h : ∀ n, l.map (f n) = l'.map (g n)) : List.Forall₂ (fun a b => ∀ n, f n a = g n b) l l' := by
  induction l generalizing l' with
  | nil =>
    have hl : l' = [] := by simpa using (h 0).symm
    rw [hl]
    exact .nil
  | cons a l ih =>
    cases l' with
    | nil => simpa using h 0
    | cons b l' =>
      simp only [List.map_cons, List.cons.injEq] at h
      exact .cons (fun n => (h n).1) (ih fun n => (h n).2)

/-- The same tree has the same children, one by one. -/
theorem Same.children (h : Same out out' a b) :
    List.Forall₂ (Same out out') (out a).children (out' b).children :=
  forall₂_of_map fun n => (h.node n).2

theorem exists_of_forall₂ {R : α → β → Prop} {l : List α} {l' : List β} (h : List.Forall₂ R l l')
    {a : α} (ha : a ∈ l) : ∃ b ∈ l', R a b := by
  induction h with
  | nil => cases ha
  | cons hab _ ih =>
    rcases List.mem_cons.1 ha with rfl | ha
    · exact ⟨_, List.mem_cons_self, hab⟩
    · obtain ⟨b, hb, hr⟩ := ih ha
      exact ⟨b, List.mem_cons_of_mem _ hb, hr⟩

/-- What unfolds to a finite tree is finite. -/
theorem Same.finite (h : Same out out' a b) (hb : Finite out' b) : Finite out a := by
  induction hb generalizing a with
  | intro b _ ih =>
    refine Acc.intro a ?_
    intro c hc
    obtain ⟨d, hd, hcd⟩ := exists_of_forall₂ h.children hc
    exact ih d hd hcd

/-- Below a node of a finite tree there is a node that does not come back. -/
theorem Finite.irrefl {r : α → α → Prop} {a : α} (h : Acc r a) : ¬ Relation.TransGen r a a := by
  have h' := h.transGen
  induction h' with
  | intro a _ ih =>
    intro hr
    exact ih a hr (h.inv_of_transGen hr) hr

/-- A node from which a cycle can be reached is not finite. -/
theorem not_finite_of_cycle {root x : α} (hr : Relation.ReflTransGen (Child out) x root)
    (hc : Relation.TransGen (Child out) x x) : ¬ Finite out root := by
  intro hf
  have hx : Acc (Child out) x := by
    induction hr with
    | refl => exact hf
    | tail _ hbc ih => exact ih (hf.inv hbc)
  exact Finite.irrefl hx hc

end
end Unfolding
