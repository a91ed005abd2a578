import Mathlib

/-! The runs of equal keys in a list. In a list that is ordered by its keys each key has one
run, with all its elements. -/

set_option autoImplicit false

namespace Grouping

section
variable {α κ : Type} [DecidableEq κ]

/-- The runs of elements with the same key. -/
@[grind =] def groups (key : α → κ) : List α → List (κ × List α)
  | [] => []
  | a :: l =>
      match groups key l with
      | [] => [(key a, [a])]
      | (k, run) :: runs =>
          if k = key a then (k, a :: run) :: runs else (key a, [a]) :: (k, run) :: runs

/-- The elements with a key, if there are any. -/
def withKey (key : α → κ) (k : κ) (l : List α) : Option (List α) :=
  if l.filter (key · = k) = [] then none else some (l.filter (key · = k))

variable {key : α → κ}

/-- The first run is that of the first element. -/
theorem groups_cons (a : α) (l : List α) : ∃ run runs, groups key (a :: l) = (key a, run) :: runs := by
  rw [groups]
  split
  · exact ⟨_, _, rfl⟩
  · split
    · next hk => exact ⟨_, _, by rw [hk]⟩
    · exact ⟨_, _, rfl⟩

/-- The runs make up the list. -/
theorem flatten_groups (l : List α) : ((groups key l).map Prod.snd).flatten = l := by
  induction l with
  | nil => rfl
  | cons a l ih =>
    rw [groups]
    split
    · next hg => rw [hg] at ih; simpa using ih
    · next hg =>
      rw [hg] at ih
      split <;> simpa using ih

theorem sublist_of_mem_groups {l : List α} {k : κ} {run : List α} (h : (k, run) ∈ groups key l) :
    run.Sublist l := by
  have hs := List.sublist_flatten_of_mem (List.mem_map_of_mem h : run ∈ (groups key l).map Prod.snd)
  rwa [flatten_groups] at hs

/-- A run is not empty, and all of it has its key. -/
theorem of_mem_groups {l : List α} {k : κ} {run : List α} (h : (k, run) ∈ groups key l) :
    run ≠ [] ∧ ∀ a ∈ run, key a = k := by
  induction l generalizing k run with
  | nil => cases h
  | cons a l ih =>
    have hone : ([a] : List α) ≠ [] ∧ ∀ b ∈ [a], key b = key a := by simp
    rw [groups] at h
    split at h
    · rw [List.mem_singleton, Prod.mk.injEq] at h
      rw [h.1, h.2]
      exact hone
    · next k' run' runs hg =>
      split at h
      · next hk =>
        rcases List.mem_cons.1 h with h | h
        · cases h
          refine ⟨List.cons_ne_nil _ _, ?_⟩
          intro b hb
          rcases List.mem_cons.1 hb with rfl | hb
          · exact hk.symm
          · exact (ih (hg ▸ List.mem_cons_self)).2 b hb
        · exact ih (hg ▸ List.mem_cons_of_mem _ h)
      · rcases List.mem_cons.1 h with h | h
        · cases h
          exact hone
        · exact ih (hg ▸ h)

theorem lookup_cons {β : Type} (k k' : κ) (v : β) (l : List (κ × β)) :
    List.lookup k ((k', v) :: l) = if k' = k then some v else List.lookup k l := by
  rw [List.lookup_cons]
  by_cases h : k' = k
  · rw [if_pos h, beq_iff_eq.2 h.symm]
  · rw [if_neg h, beq_false_of_ne (Ne.symm h)]

theorem withKey_cons (k : κ) (a : α) (l : List α) :
    withKey key k (a :: l) =
      if key a = k then some (a :: l.filter (key · = k)) else withKey key k l := by
  by_cases h : key a = k
  · simp [withKey, h]
  · simp [withKey, h]

variable {r : κ → κ → Prop} [Std.Antisymm r]

/-- In an ordered list the run of a key has all the elements with it. -/
theorem lookup_groups {l : List α} (h : l.Pairwise fun a b => r (key a) (key b)) (k : κ) :
    (groups key l).lookup k = withKey key k l := by
  induction l with
  | nil => rfl
  | cons a l ih =>
    rw [List.pairwise_cons] at h
    have hl := ih h.2
    rw [groups, withKey_cons]
    cases l with
    | nil => exact lookup_cons k (key a) [a] []
    | cons b l =>
      obtain ⟨run, runs, hg⟩ := @groups_cons _ _ _ key b l
      rw [hg, lookup_cons] at hl
      rw [hg]
      simp only
      by_cases hb : key b = key a
      · rw [if_pos hb, lookup_cons, hb]
        rw [hb] at hl
        by_cases hk : key a = k
        · rw [if_pos hk, withKey_cons, if_pos (hb.trans hk), Option.some.injEq] at hl
          rw [if_pos hk, if_pos hk, List.filter_cons_of_pos (by simpa using hb.trans hk), hl]
        · rw [if_neg hk] at hl ⊢
          rw [if_neg hk, hl]
      · rw [if_neg hb, lookup_cons]
        by_cases hk : key a = k
        · have hnone : ∀ c ∈ b :: l, ¬ key c = k := by
            rintro c hc rfl
            rcases List.mem_cons.1 hc with rfl | hc
            · exact hb hk.symm
            · have hab := h.1 b List.mem_cons_self
              have hbc := (List.pairwise_cons.1 h.2).1 c hc
              rw [← hk] at hbc
              exact hb (Std.Antisymm.antisymm _ _ hbc hab)
          rw [if_pos hk, if_pos hk, List.filter_eq_nil_iff.2 fun c hc => by simpa using hnone c hc]
        · rw [if_neg hk, if_neg hk, lookup_cons, hl]

end
end Grouping
