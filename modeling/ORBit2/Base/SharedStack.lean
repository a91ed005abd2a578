import Mathlib

/-! One stack that several owners push to and pop from, where a pop removes the first entry that is
equal to the owner's last one: when it serves each owner as a stack of his own would. -/

set_option autoImplicit false

namespace SharedStack

section
variable {ι α : Type} [DecidableEq ι]

/-- The entries of one owner, the last one first. -/
def own (es : List (ι × α)) (i : ι) : List α := (es.filter fun e => e.1 = i).map (·.2)

/-- The owners that have entries have the same one last. -/
def Agreed (es : List (ι × α)) : Prop :=
  ∀ i ∈ es.map (·.1), ∀ j ∈ es.map (·.1), ∀ a ∈ (own es i).head?, ∀ b ∈ (own es j).head?, a = b

instance [DecidableEq α] (es : List (ι × α)) : Decidable (Agreed es) := by
  unfold Agreed; infer_instance

/-- The last entry `a` lies on the stack some times, and beneath it the rest of one owner, who has
`a` above it too. All others have nothing but `a`. -/
def Layered (es : List (ι × α)) (stack : List α) (a : α) (i : ι) (m n : Nat) (rest : List α) :
    Prop :=
  stack = List.replicate m a ++ rest ∧ own es i = List.replicate n a ++ rest ∧
    (n = 0 → rest = []) ∧ ∀ j, j ≠ i → ∀ b ∈ own es j, b = a

/-- The stack holds the entries of all owners, in layers. -/
structure Follows (es : List (ι × α)) (stack : List α) : Prop where
  perm : stack.Perm (es.map (·.2))
  layered : stack = [] ∨ ∃ a i m n rest, Layered es stack a i (m+1) n rest

variable {es es' : List (ι × α)} {stack : List α} {a b : α} {i j : ι}

@[simp] theorem own_nil (i : ι) : own ([] : List (ι × α)) i = [] := rfl

theorem own_append (i : ι) : own (es ++ es') i = own es i ++ own es' i := by simp [own]

theorem mem_own_of_mem {e : ι × α} (h : e ∈ es) : e.2 ∈ own es e.1 :=
  List.mem_map.mpr ⟨e, List.mem_filter.mpr ⟨h, by simp⟩, rfl⟩

theorem mem_owners_of_head (h : a ∈ (own es i).head?) : i ∈ es.map (·.1) := by
  have ha : a ∈ own es i := List.mem_of_mem_head? h
  obtain ⟨e, he, -⟩ := List.mem_map.mp ha
  obtain ⟨hmem, hi⟩ := List.mem_filter.mp he
  exact List.mem_map.mpr ⟨e, hmem, by simpa using hi⟩

theorem Agreed.eq (h : Agreed es) (ha : a ∈ (own es i).head?) (hb : b ∈ (own es j).head?) : a = b :=
  h i (mem_owners_of_head ha) j (mem_owners_of_head hb) a ha b hb

theorem length_own_le (es : List (ι × α)) (i : ι) : (own es i).length ≤ es.length := by
  unfold own
  rw [List.length_map]
  exact List.length_filter_le _ _

/-- If the others have no entries, the entries are those of one owner. -/
theorem own_of_alone (h : ∀ j, j ≠ i → own es j = []) : own es i = es.map (·.2) := by
  unfold own
  rw [List.filter_eq_self.mpr]
  intro e he
  by_contra hne
  have hnil := h e.1 (by simpa using hne)
  have hmem := mem_own_of_mem he
  rw [hnil] at hmem
  cases hmem

theorem head_replicate_append {n : Nat} {rest : List α} (h : n = 0 → rest = [])
    (hb : b ∈ (List.replicate n a ++ rest).head?) : b = a := by
  cases n with
  | zero =>
    rw [h rfl] at hb
    cases hb
  | succ n =>
    rw [List.replicate_succ, List.cons_append, List.head?_cons] at hb
    exact (Option.some.inj hb).symm

/-- The last entry of an owner is on top. -/
theorem Follows.head (h : Follows es stack) (ha : a ∈ (own es i).head?) : stack.head? = some a := by
  rcases h.layered with hnil | ⟨b, j, m, n, rest, hstack, hown, hrest, hothers⟩
  · have hes : es = [] := by
      have hp := h.perm
      rw [hnil] at hp
      exact List.map_eq_nil_iff.mp hp.symm.eq_nil
    rw [hes] at ha
    cases ha
  · have hab : a = b := by
      by_cases hij : i = j
      · rw [hij, hown] at ha
        exact head_replicate_append hrest ha
      · exact hothers i hij a (List.mem_of_mem_head? ha)
    rw [hstack, hab, List.replicate_succ, List.cons_append, List.head?_cons]

/-- Without entries the stack is empty. -/
theorem Follows.nil (h : Follows es stack) (hes : ∀ i, own es i = []) : stack = [] := by
  have hnil : es = [] := by
    cases es with
    | nil => rfl
    | cons e es =>
      have hmem := mem_own_of_mem (List.mem_cons_self (a := e) (l := es))
      rw [hes] at hmem
      cases hmem
  have hp := h.perm
  rw [hnil] at hp
  exact hp.eq_nil

/-- The stack of a lone owner is his own. -/
theorem Follows.alone (h : Follows es stack) (hothers : ∀ j, j ≠ i → own es j = []) :
    stack = own es i := by
  have hlen : stack.length = (own es i).length := by
    rw [own_of_alone hothers, h.perm.length_eq]
  rcases h.layered with hnil | ⟨a, k, m, n, rest, hstack, hown, hrest, hall⟩
  · rw [hnil, List.length_nil] at hlen
    rw [hnil, List.eq_nil_of_length_eq_zero hlen.symm]
  · by_cases hki : k = i
    · subst hki
      rw [hstack, hown, List.length_append, List.length_append, List.length_replicate,
        List.length_replicate] at hlen
      rw [hstack, hown, show m+1 = n by omega]
    · have hk : List.replicate n a ++ rest = [] := hown.symm.trans (hothers k hki)
      obtain ⟨-, rfl⟩ := List.append_eq_nil_iff.mp hk
      rw [List.append_nil] at hstack
      rw [hstack, List.length_replicate] at hlen
      rw [hstack]
      exact (List.eq_replicate_iff.mpr ⟨hlen.symm, hall i (Ne.symm hki)⟩).symm

theorem follows_nil : Follows ([] : List (ι × α)) [] := ⟨.nil, .inl rfl⟩

/-- Only the order of each owner's entries matters. -/
theorem Follows.congr (h : Follows es stack) (hperm : es'.Perm es)
    (hown : ∀ j, own es' j = own es j) : Follows es' stack := by
  refine ⟨h.perm.trans (hperm.map _).symm, h.layered.imp_right ?_⟩
  rintro ⟨a, i, m, n, rest, hstack, hi, hrest, hall⟩
  refine ⟨a, i, m, n, rest, hstack, (hown i).trans hi, hrest, fun j hj b hb => ?_⟩
  rw [hown] at hb
  exact hall j hj b hb

/-- A lone owner has a stack of his own. -/
theorem follows_alone (hothers : ∀ j, j ≠ i → own es j = []) : Follows es (own es i) := by
  refine ⟨by rw [own_of_alone hothers], ?_⟩
  cases hi : own es i with
  | nil => exact .inl rfl
  | cons a rest =>
    refine .inr ⟨a, i, 0, 1, rest, rfl, hi, fun h => (Nat.one_ne_zero h).elim, fun j hj b hb => ?_⟩
    rw [hothers j hj] at hb
    cases hb

theorem follows_of_layered {m n : Nat} {rest : List α} (hperm : stack.Perm (es.map (·.2)))
    (h : Layered es stack a i m n rest) : Follows es stack := by
  obtain ⟨hstack, hown, hrest, hall⟩ := h
  refine ⟨hperm, ?_⟩
  cases m with
  | succ m => exact .inr ⟨a, i, m, n, rest, hstack, hown, hrest, hall⟩
  | zero =>
    -- the owner of the rest has no more entries than there are
    have hle := length_own_le es i
    have hlen := hperm.length_eq
    rw [hstack, List.length_map] at hlen
    rw [hown, List.length_append, List.length_replicate, ← hlen, List.replicate_zero,
      List.nil_append] at hle
    refine .inl ?_
    rw [hstack, hrest (by omega)]
    rfl

theorem Follows.push (h : Follows es stack) (hi : own es' i = a :: own es i)
    (hothers : ∀ j, j ≠ i → own es' j = own es j) (hperm : es'.Perm ((i, a) :: es))
    (hagreed : Agreed es') : Follows es' (a :: stack) := by
  by_cases halone : ∀ j, j ≠ i → own es j = []
  · have hstack := h.alone halone
    have halone' : ∀ j, j ≠ i → own es' j = [] := fun j hj => (hothers j hj).trans (halone j hj)
    rw [hstack, ← hi]
    exact follows_alone halone'
  · push Not at halone
    obtain ⟨j, hj, hne⟩ := halone
    obtain ⟨b, hb⟩ : ∃ b, b ∈ (own es j).head? := by
      obtain ⟨b, bs, hbs⟩ := List.exists_cons_of_ne_nil hne
      exact ⟨b, by rw [hbs]; rfl⟩
    -- another owner has entries, so that the new one is on top already
    have hab : a = b :=
      hagreed.eq (i := i) (j := j) (by rw [hi]; rfl) (by rw [hothers j hj]; exact hb)
    have htop := h.head hb
    have hperm' : (a :: stack).Perm (es'.map (·.2)) := by
      have hp := hperm.map (·.2)
      exact (h.perm.cons a).trans hp.symm
    refine ⟨hperm', .inr ?_⟩
    rcases h.layered with hnil | ⟨c, k, m, n, rest, hstack, hown, hrest, hall⟩
    · rw [hnil] at htop
      cases htop
    · have hbc : b = c := by
        rw [hstack, List.replicate_succ, List.cons_append, List.head?_cons] at htop
        exact (Option.some.inj htop).symm
      have hac : a = c := hab.trans hbc
      subst hac
      by_cases hki : k = i
      · subst hki
        refine ⟨a, k, m+1, n+1, rest, ?_, ?_, fun h => (Nat.succ_ne_zero n h).elim,
          fun l hl b' hb' => ?_⟩
        · rw [hstack]
          rfl
        · rw [hi, hown]
          rfl
        · rw [hothers l hl] at hb'
          exact hall l hl b' hb'
      · refine ⟨a, k, m+1, n, rest, ?_, ?_, hrest, fun l hl b' hb' => ?_⟩
        · rw [hstack]
          rfl
        · rw [hothers k hki, hown]
        · by_cases hli : l = i
          · subst hli
            rw [hi] at hb'
            rcases List.mem_cons.mp hb' with rfl | hb'
            · rfl
            · exact hall l hl b' hb'
          · rw [hothers l hli] at hb'
            exact hall l hl b' hb'

variable [DecidableEq α]

theorem Follows.pop (h : Follows es stack) (hi : own es i = a :: own es' i)
    (hothers : ∀ j, j ≠ i → own es' j = own es j) (hperm : es.Perm ((i, a) :: es'))
    (hagreed : Agreed es') : Follows es' (stack.erase a) := by
  have htop : stack.head? = some a := h.head (i := i) (by rw [hi]; rfl)
  obtain ⟨tail, htail⟩ : ∃ tail, stack = a :: tail := by
    cases stack with
    | nil => cases htop
    | cons b tail => exact ⟨tail, by rw [List.head?_cons] at htop; rw [Option.some.inj htop]⟩
  have herase : stack.erase a = tail := by
    rw [htail, List.erase_cons_head]
  have hperm' : tail.Perm (es'.map (·.2)) := by
    have hp := h.perm.trans (hperm.map (·.2))
    rw [htail] at hp
    exact hp.cons_inv
  rw [herase]
  by_cases halone : ∀ j, j ≠ i → own es j = []
  · have hstack := h.alone halone
    rw [htail, hi] at hstack
    rw [(List.cons.inj hstack).2]
    exact follows_alone fun j hj => (hothers j hj).trans (halone j hj)
  · push Not at halone
    obtain ⟨j, hj, hne⟩ := halone
    obtain ⟨b, hb⟩ : ∃ b, b ∈ (own es j).head? := by
      obtain ⟨b, bs, hbs⟩ := List.exists_cons_of_ne_nil hne
      exact ⟨b, by rw [hbs]; rfl⟩
    have hba : b = a := Option.some.inj ((h.head hb).symm.trans htop)
    subst hba
    rcases h.layered with hnil | ⟨c, k, m, n, rest, hstack, hown, hrest, hall⟩
    · rw [hnil] at htail
      cases htail
    · rw [htail, List.replicate_succ, List.cons_append] at hstack
      obtain ⟨rfl, htail'⟩ := List.cons.inj hstack
      by_cases hki : k = i
      · subst hki
        rw [hi] at hown
        have hall' : ∀ l, l ≠ k → ∀ b' ∈ own es' l, b' = b := by
          intro l hl b' hb'
          rw [hothers l hl] at hb'
          exact hall l hl b' hb'
        cases n with
        | zero =>
          rw [hrest rfl] at hown
          cases hown
        | succ n =>
          rw [List.replicate_succ, List.cons_append] at hown
          have hown' := (List.cons.inj hown).2
          by_cases hn : n = 0 ∧ rest ≠ []
          · -- what comes up is on top with another owner
            obtain ⟨rfl, hne⟩ := hn
            obtain ⟨b', rest', rfl⟩ := List.exists_cons_of_ne_nil hne
            have hb' : b' = b :=
              hagreed.eq (i := k) (j := j) (by rw [hown']; rfl) (by rw [hothers j hj]; exact hb)
            subst hb'
            have htop' : tail = List.replicate (m+1) b' ++ rest' := by
              rw [htail', List.replicate_succ', List.append_assoc]
              rfl
            have hlayered : Layered es' tail b' k (m+1) 1 rest' :=
              ⟨htop', hown', fun h => (Nat.one_ne_zero h).elim, hall'⟩
            exact follows_of_layered hperm' hlayered
          · refine follows_of_layered hperm' ⟨htail', hown', fun hn' => ?_, hall'⟩
            by_contra hne
            exact hn ⟨hn', hne⟩
      · refine follows_of_layered hperm' ⟨htail', (hothers k hki).trans hown, hrest,
          fun l hl b' hb' => ?_⟩
        by_cases hli : l = i
        · subst hli
          exact hall l hl b' (by rw [hi]; exact List.mem_cons_of_mem _ hb')
        · rw [hothers l hli] at hb'
          exact hall l hl b' hb'

end

section
variable {ι α : Type} [DecidableEq ι] {es : List (ι × α)} {stack : List α} {a : α} {i : ι}

/-- The lowest entry of a kind on the stack, when no owner has another one lowest. -/
theorem Follows.getLast (p : α → Bool) (h : Follows es stack) (ha : a ∈ own es i) (hp : p a = true)
    (hlast : ∀ j, ∀ b ∈ ((own es j).filter p).getLast?, b = a) :
    (stack.filter p).getLast? = some a := by
  rcases h.layered with hnil | ⟨c, k, m, n, rest, hstack, hown, hrest, hall⟩
  · have hmem : a ∈ stack := h.perm.mem_iff.mpr <| by
      obtain ⟨e, he, hea⟩ := List.mem_map.mp ha
      exact List.mem_map.mpr ⟨e, (List.mem_filter.mp he).1, hea⟩
    rw [hnil] at hmem
    cases hmem
  · rw [hstack, List.filter_append]
    by_cases hnone : rest.filter p = []
    · -- there is nothing of the kind but the top
      have hnot : a ∉ rest := fun hmem => by
        have : a ∈ rest.filter p := List.mem_filter.mpr ⟨hmem, hp⟩
        rw [hnone] at this
        cases this
      have hac : a = c := by
        by_cases hik : i = k
        · rw [hik, hown] at ha
          rcases List.mem_append.mp ha with ha | ha
          · exact List.eq_of_mem_replicate ha
          · exact absurd ha hnot
        · exact hall i hik a ha
      rw [hnone, List.append_nil, ← hac, List.filter_replicate_of_pos hp]
      rw [List.getLast?_replicate, if_neg (Nat.succ_ne_zero m)]
    · obtain ⟨b, hb⟩ : ∃ b, b ∈ (rest.filter p).getLast? :=
        ⟨_, List.getLast?_eq_some_getLast hnone⟩
      have hba : b = a := by
        refine hlast k b ?_
        rw [hown, List.filter_append]
        exact List.mem_getLast?_append_of_mem_getLast? hb
      rw [← hba]
      exact List.mem_getLast?_append_of_mem_getLast? hb

end

end SharedStack
