import Mathlib

/-! Values in memory as trees. A buffer is a block of its own: it carries the stamp it was
allocated with, and a path through it names that stamp, so that a path into a buffer that has
been replaced leads nowhere. -/

set_option autoImplicit false

namespace Storage

variable {α η : Type}

inductive Store (α η : Type) where
  | leaf (content : α)
  | record (members : List (Store α η))
  | buffer (header : η) (stamp : Nat) (elements : List (Store α η))

/-- One step of a path. -/
inductive Part where
  | member (i : Nat)
  | element (stamp i : Nat)
  deriving DecidableEq, Repr

/-- The step stays in the block. -/
@[grind =] def Part.inner : Part → Bool
  | .member _ => true
  | .element _ _ => false

namespace Store

@[grind =] def part : Store α η → Part → Option (Store α η)
  | .record ms, .member i => ms[i]?
  | .buffer _ stamp es, .element s i => if s = stamp then es[i]? else none
  | _, _ => none

@[grind =] def setPart : Store α η → Part → Store α η → Store α η
  | .record ms, .member i, w => .record (ms.set i w)
  | .buffer header stamp es, .element s i, w =>
      if s = stamp then .buffer header stamp (es.set i w) else .buffer header stamp es
  | v, _, _ => v

/-- What a path leads to. -/
@[grind =] def follow (v : Store α η) : List Part → Option (Store α η)
  | [] => some v
  | p :: path => (v.part p).bind (follow · path)

/-- The tree with `w` at the end of a path. -/
@[grind =] def put (v : Store α η) : List Part → Store α η → Store α η
  | [], w => w
  | p :: path, w =>
      match v.part p with
      | some u => v.setPart p (put u path w)
      | none => v

/-- The stamp and the length of a buffer. -/
@[grind =] def shape : Store α η → Option (Nat × Nat)
  | .buffer _ stamp es => some (stamp, es.length)
  | _ => none

@[simp] theorem follow_nil (v : Store α η) : v.follow [] = some v := rfl

@[simp] theorem follow_cons (v : Store α η) (p : Part) (path : List Part) :
    v.follow (p :: path) = (v.part p).bind (follow · path) := rfl

theorem follow_append (v : Store α η) (path rest : List Part) :
    v.follow (path ++ rest) = (v.follow path).bind (follow · rest) := by
  induction path generalizing v with
  | nil => rfl
  | cons p path ih =>
    rw [List.cons_append, follow_cons, follow_cons]
    cases v.part p with
    | none => rfl
    | some u => exact ih u

theorem part_setPart_self {v u : Store α η} {p : Part} (h : v.part p = some u) (w : Store α η) :
    (v.setPart p w).part p = some w := by
  cases v with
  | leaf => cases p <;> cases h
  | record ms =>
    cases p with
    | member i =>
      have hi : i < ms.length := (List.getElem?_eq_some_iff.mp h).1
      simp [setPart, part, hi]
    | element => cases h
  | buffer header stamp es =>
    cases p with
    | member => cases h
    | element s i =>
      by_cases hs : s = stamp
      · rw [part, if_pos hs] at h
        have hi : i < es.length := (List.getElem?_eq_some_iff.mp h).1
        simp [setPart, part, hs, hi]
      · rw [part, if_neg hs] at h
        cases h

theorem part_setPart_ne (v w : Store α η) {p q : Part} (h : p ≠ q) :
    (v.setPart p w).part q = v.part q := by
  cases v with
  | leaf => cases p <;> rfl
  | record ms =>
    cases p with
    | member i =>
      cases q with
      | member j =>
        have hij : i ≠ j := fun hij => h (congrArg Part.member hij)
        simp [setPart, part, hij]
      | element => rfl
    | element => rfl
  | buffer header stamp es =>
    cases p with
    | member => rfl
    | element s i =>
      by_cases hs : s = stamp
      · cases q with
        | member => simp [setPart, part, hs]
        | element s' j =>
          by_cases hs' : s' = stamp
          · have hij : i ≠ j := fun hij => h (by rw [hs, hs', hij])
            simp [setPart, part, hs, hs', hij]
          · simp [setPart, part, hs, hs']
      · simp [setPart, hs]

@[simp] theorem shape_setPart (v w : Store α η) (p : Part) : (v.setPart p w).shape = v.shape := by
  cases v with
  | leaf => cases p <;> rfl
  | record => cases p <;> rfl
  | buffer header stamp es =>
    cases p with
    | member => rfl
    | element s i => by_cases hs : s = stamp <;> simp [setPart, shape, hs]

/-- Below the place that is written. -/
theorem follow_put_append {v u : Store α η} {path : List Part} (h : v.follow path = some u)
    (w : Store α η) (rest : List Part) : (v.put path w).follow (path ++ rest) = w.follow rest := by
  induction path generalizing v with
  | nil => rfl
  | cons p path ih =>
    rw [follow_cons] at h
    cases hp : v.part p with
    | none =>
      rw [hp] at h
      cases h
    | some x =>
      rw [hp] at h
      rw [put, hp, List.cons_append, follow_cons]
      simp only [part_setPart_self hp, Option.bind_some]
      exact ih h

/-- Everywhere else, all shapes are kept. -/
theorem follow_put_of_not_isPrefix {v u x : Store α η} {path other : List Part}
    (h : v.follow path = some u) (hx : v.follow other = some x) (hp : ¬ path <+: other)
    (w : Store α η) : ∃ y, (v.put path w).follow other = some y ∧ y.shape = x.shape := by
  induction path generalizing v other with
  | nil => exact absurd List.nil_prefix hp
  | cons p path ih =>
    rw [follow_cons] at h
    cases hu : v.part p with
    | none =>
      rw [hu] at h
      cases h
    | some z =>
      rw [hu] at h
      rw [put, hu]
      cases other with
      | nil =>
        cases hx
        exact ⟨_, rfl, shape_setPart ..⟩
      | cons q other =>
        by_cases hpq : p = q
        · subst q
          rw [follow_cons, hu] at hx
          simp only [follow_cons, part_setPart_self hu, Option.bind_some]
          exact ih h hx fun hpre => hp (List.cons_prefix_cons.mpr ⟨rfl, hpre⟩)
        · rw [follow_cons] at hx
          simp only [follow_cons, part_setPart_ne v _ hpq]
          exact ⟨x, hx, rfl⟩

end Store

end Storage
