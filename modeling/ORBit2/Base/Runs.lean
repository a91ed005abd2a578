import Mathlib

/-! Runs of a deterministic system that takes one event after another, and the rule
that carries an invariant along a run. -/

set_option autoImplicit false

namespace Runs

section
variable {σ ε : Type} (step : σ → ε → σ)

/-- The state after the events `es`. -/
def run (s : σ) (es : List ε) : σ := es.foldl step s

@[simp] theorem run_nil (s : σ) : run step s [] = s := rfl

@[simp] theorem run_cons (s : σ) (e : ε) (es : List ε) :
    run step s (e :: es) = run step (step s e) es := rfl

@[simp] theorem run_append (s : σ) (es es' : List ε) :
    run step s (es ++ es') = run step (run step s es) es' := List.foldl_append

/-- Every event of the run meets a condition on the state it finds. -/
@[grind =] def Meets (C : σ → ε → Prop) (s : σ) : List ε → Prop
  | [] => True
  | e :: es => C s e ∧ Meets C (step s e) es

instance Meets.decidable {C : σ → ε → Prop} [∀ s e, Decidable (C s e)] :
    ∀ s es, Decidable (Meets step C s es)
  | _, [] => .isTrue trivial
  | s, e :: es =>
      have : Decidable (Meets step C (step s e) es) := Meets.decidable (step s e) es
      inferInstanceAs (Decidable (C s e ∧ Meets step C (step s e) es))

/-- `P` holds in every state the run goes through, its ends included. -/
@[grind =] def Always (P : σ → Prop) (s : σ) : List ε → Prop
  | [] => P s
  | e :: es => P s ∧ Always P (step s e) es

variable {step}
variable {P Q : σ → Prop} {C D : σ → ε → Prop}

/-- What every allowed step preserves holds along every allowed run. -/
theorem Meets.always (hstep : ∀ s e, P s → C s e → P (step s e)) {s : σ} {es : List ε} (hs : P s)
    (h : Meets step C s es) : Always step P s es := by
  induction es generalizing s with
  | nil => exact hs
  | cons e es ih => exact ⟨hs, ih (hstep s e hs h.1) h.2⟩

/-- What holds of every allowed step that starts under an invariant. -/
theorem Meets.imp (hstep : ∀ s e, P s → C s e → P (step s e)) (hCD : ∀ s e, P s → C s e → D s e)
    {s : σ} {es : List ε} (hs : P s) (h : Meets step C s es) : Meets step D s es := by
  induction es generalizing s with
  | nil => trivial
  | cons e es ih => exact ⟨hCD s e hs h.1, ih (hstep s e hs h.1) h.2⟩

theorem meets_append {s : σ} {es es' : List ε} :
    Meets step C s (es ++ es') ↔ Meets step C s es ∧ Meets step C (run step s es) es' := by
  induction es generalizing s with
  | nil => exact (and_iff_right trivial).symm
  | cons e es ih => exact (and_congr_right fun _ => ih).trans and_assoc.symm

theorem Meets.and {s : σ} {es : List ε} (hC : Meets step C s es) (hD : Meets step D s es) :
    Meets step (fun s e => C s e ∧ D s e) s es := by
  induction es generalizing s with
  | nil => trivial
  | cons e es ih => exact ⟨⟨hC.1, hD.1⟩, ih hC.2 hD.2⟩

theorem Always.last {s : σ} {es : List ε} (h : Always step P s es) : P (run step s es) := by
  induction es generalizing s with
  | nil => exact h
  | cons e es ih => exact ih h.2

theorem Always.imp (hPQ : ∀ s, P s → Q s) {s : σ} {es : List ε} (h : Always step P s es) :
    Always step Q s es := by
  induction es generalizing s with
  | nil => exact hPQ s h
  | cons e es ih => exact ⟨hPQ s h.1, ih h.2⟩

theorem meets_of_forall (h : ∀ s e, C s e) {s : σ} {es : List ε} : Meets step C s es := by
  induction es generalizing s with
  | nil => trivial
  | cons e es ih => exact ⟨h s e, ih⟩

/-- An unconditional invariant. -/
theorem always_invariant (hstep : ∀ s e, P s → P (step s e)) {s : σ} (es : List ε) (hs : P s) :
    Always step P s es :=
  (meets_of_forall fun _ _ => trivial).always (fun s e h (_ : True) => hstep s e h) hs

theorem run_invariant (hstep : ∀ s e, P s → P (step s e)) {s : σ} (es : List ε) (hs : P s) :
    P (run step s es) :=
  (always_invariant hstep es hs).last

/-- A step that breaks the condition leads to states from which there is no way back. -/
theorem meets_or_lost (hstep : ∀ s e, P s → C s e → P (step s e))
    (hbreak : ∀ s e, P s → ¬ C s e → Q (step s e)) (hlost : ∀ s e, Q s → Q (step s e)) {s : σ}
    {es : List ε} (hs : P s) : Meets step C s es ∨ Q (run step s es) := by
  induction es generalizing s with
  | nil => exact .inl trivial
  | cons e es ih =>
    by_cases hc : C s e
    · exact (ih (hstep s e hs hc)).imp_left (⟨hc, ·⟩)
    · exact .inr (run_invariant hlost es (hbreak s e hs hc))

/-- Two conditions that agree wherever an invariant holds. -/
theorem meets_congr (hstep : ∀ s e, P s → P (step s e)) (hCD : ∀ s e, P s → (C s e ↔ D s e))
    {s : σ} {es : List ε} (hs : P s) : Meets step C s es ↔ Meets step D s es := by
  induction es generalizing s with
  | nil => exact Iff.rfl
  | cons e es ih => exact and_congr (hCD s e hs) (ih (hstep s e hs))

/-- When the condition says exactly which steps keep `P`, the runs that keep it are those that meet
the condition. -/
theorem always_iff_meets (h : ∀ s e, P s → (P (step s e) ↔ C s e)) {s : σ} {es : List ε}
    (hs : P s) : Always step P s es ↔ Meets step C s es := by
  constructor
  · intro ha
    induction es generalizing s with
    | nil => trivial
    | cons e es ih =>
      have hnext : P (step s e) := by
        cases es with
        | nil => exact ha.2
        | cons => exact ha.2.1
      exact ⟨(h s e hs).mp hnext, ih hnext ha.2⟩
  · exact fun hm => hm.always (fun s e hp hc => (h s e hp).mpr hc) hs

/-- The same for a `Q` that follows from an invariant and fails after every step that breaks the
condition. -/
theorem always_iff_meets_of (hstep : ∀ s e, P s → C s e → P (step s e)) (hPQ : ∀ s, P s → Q s)
    (hbreak : ∀ s e, P s → ¬ C s e → ¬ Q (step s e)) {s : σ} {es : List ε} (hs : P s) :
    Always step Q s es ↔ Meets step C s es := by
  constructor
  · intro ha
    induction es generalizing s with
    | nil => trivial
    | cons e es ih =>
      have hnext : Q (step s e) := by
        cases es with
        | nil => exact ha.2
        | cons => exact ha.2.1
      have hc : C s e := by
        by_contra hc
        exact hbreak s e hs hc hnext
      exact ⟨hc, ih (hstep s e hs hc) ha.2⟩
  · exact fun hm => (hm.always hstep hs).imp hPQ

/-- A state that no event changes ends the run. -/
theorem run_fixed {s : σ} (h : ∀ e, step s e = s) (es : List ε) : run step s es = s := by
  induction es with
  | nil => rfl
  | cons e es ih => rw [run_cons, h, ih]

end

end Runs
