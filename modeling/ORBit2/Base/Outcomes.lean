import Mathlib

/-! Programs that end in a value or in an error, taken apart at their steps. -/

set_option autoImplicit false

namespace Outcomes

variable {ε α β : Type}

/-- A sequence succeeds through a success of its first part. -/
theorem bind_eq_ok {x : Except ε α} {f : α → Except ε β} {b : β} :
    (x >>= f) = .ok b ↔ ∃ a, x = .ok a ∧ f a = .ok b := by
  cases x with
  | error e => simp [bind, Except.bind]
  | ok a => simp [bind, Except.bind]

theorem of_bind {x : Except ε α} {f : α → Except ε β} {b : β} (h : (x >>= f) = .ok b) :
    ∃ a, x = .ok a ∧ f a = .ok b := bind_eq_ok.mp h

@[simp] theorem ok_bind (a : α) (f : α → Except ε β) : (.ok a >>= f) = f a := rfl

@[simp] theorem error_bind (e : ε) (f : α → Except ε β) : (.error e >>= f) = .error e := rfl

/-- What fails under a condition has met the other branch when it succeeds. -/
theorem of_guard {c : Prop} [Decidable c] {e : ε} {x : Except ε α} {a : α}
    (h : (if c then .error e else x) = .ok a) : ¬ c ∧ x = .ok a := by
  by_cases hc : c
  · rw [if_pos hc] at h
    cases h
  · rw [if_neg hc] at h
    exact ⟨hc, h⟩

/-- What holds along a fold of a program that preserves it. -/
theorem foldlM_ok {f : α → β → Except ε α} {P : α → Prop}
    (hf : ∀ a b a', P a → f a b = .ok a' → P a') {a a' : α} {bs : List β} (ha : P a)
    (h : bs.foldlM f a = .ok a') : P a' := by
  induction bs generalizing a with
  | nil =>
    cases h
    exact ha
  | cons b bs ih =>
    rw [List.foldlM_cons] at h
    obtain ⟨c, hc, h⟩ := of_bind h
    exact ih (hf a b c ha hc) h

end Outcomes
