import ORBit2.Base.Outcomes

/-! Programs that may fail, against an abstract system that does not: while the promises of the
caller are kept, the program succeeds and stays in step with the abstract system. -/

set_option autoImplicit false

namespace Refinement

section
variable {σ τ ε φ : Type} (step : σ → ε → Except φ σ) (Promise : σ → ε → Prop)

/-- Every event finds a state in which it is promised. -/
@[grind =] def Granted (s : σ) : List ε → Prop
  | [] => True
  | e :: es => Promise s e ∧ ∀ s', step s e = .ok s' → Granted s' es

variable {step Promise}

theorem granted_cons {s s' : σ} {e : ε} {es : List ε} (hs : step s e = .ok s') (he : Promise s e)
    (h : Granted step Promise s' es) : Granted step Promise s (e :: es) := by
  refine ⟨he, fun s₁ hs₁ => ?_⟩
  obtain rfl : s' = s₁ := Except.ok.inj (hs.symm.trans hs₁)
  exact h

theorem granted_append {s : σ} {es es' : List ε} (h : Granted step Promise s (es ++ es')) :
    Granted step Promise s es ∧
      ∀ s', es.foldlM step s = .ok s' → Granted step Promise s' es' := by
  induction es generalizing s with
  | nil =>
    refine ⟨trivial, fun s' hs' => ?_⟩
    cases hs'
    exact h
  | cons e es ih =>
    refine ⟨⟨h.1, fun s₁ hs₁ => (ih (h.2 s₁ hs₁)).1⟩, fun s' hs' => ?_⟩
    rw [List.foldlM_cons] at hs'
    obtain ⟨s₁, hs₁, hs'⟩ := Outcomes.of_bind hs'
    exact (ih (h.2 s₁ hs₁)).2 s' hs'

variable {next : τ → ε → τ} {R : σ → τ → Prop}

theorem run_refines
    (hstep : ∀ s t e, R s t → Promise s e → ∃ s', step s e = .ok s' ∧ R s' (next t e))
    {s : σ} {t : τ} {es : List ε} (hR : R s t) (h : Granted step Promise s es) :
    ∃ s', es.foldlM step s = .ok s' ∧ R s' (es.foldl next t) := by
  induction es generalizing s t with
  | nil => exact ⟨s, rfl, hR⟩
  | cons e es ih =>
    obtain ⟨s₁, hs₁, hR₁⟩ := hstep s t e hR h.1
    obtain ⟨s', hs', hR'⟩ := ih hR₁ (h.2 s₁ hs₁)
    refine ⟨s', ?_, hR'⟩
    rw [List.foldlM_cons, hs₁]
    exact hs'

end

end Refinement
