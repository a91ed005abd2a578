import ORBit2.DynAny

/-! The links between DynAnys, and what `dynany_invalidate` does to them. -/

set_option autoImplicit false

namespace ORBit2.Dynamic

open Storage Storage.Store

@[simp] theorem set_dynanys (h : Heap) (d c : Nat) (x : DynAny) :
    (h.set d x).dynanys c = if c = d then some x else h.dynanys c :=
  Function.update_apply h.dynanys d (some x) c

theorem dynany_ok {h : Heap} {d : Nat} {x : DynAny} (hd : h.dynanys d = some x) :
    h.dynany d = .ok x := by
  rw [Heap.dynany, hd]

/-- Children and parents name each other, children are younger and own nothing. -/
structure Forest (h : Heap) : Prop where
  bound : ∀ d x, h.dynanys d = some x → d < h.next
  listed : ∀ d x c, h.dynanys d = some x → c ∈ x.children →
    ∃ y a, h.dynanys c = some y ∧ y.parent = some d ∧ d < c ∧ y.any = some a ∧ a.release = false
  nodup : ∀ d x, h.dynanys d = some x → x.children.Nodup
  back : ∀ c y p, h.dynanys c = some y → y.parent = some p →
    ∃ x, h.dynanys p = some x ∧ c ∈ x.children

/-- What an invalidated child looks like. -/
def DynAny.nulled (x : DynAny) : DynAny := { x with any := none, children := [], parent := none }

/-- The state behind the loop of `dynany_invalidate`: the children are gone, and whatever has
changed has been invalidated. -/
structure Pruned (h h' : Heap) (d : Nat) : Prop where
  blocks : h'.blocks = h.blocks
  next : h'.next = h.next
  root : ∃ x, h.dynanys d = some x ∧ h'.dynanys d = some { x with children := [] }
  older : ∀ c, c < d → h'.dynanys c = h.dynanys c
  rest : ∀ c, c ≠ d → h'.dynanys c = h.dynanys c ∨
    ∃ y, h.dynanys c = some y ∧ h'.dynanys c = some y.nulled
  forest : Forest h'

/-- The DynAnys that have an any. -/
def alive (h : Heap) : Finset Nat :=
  (Finset.range h.next).filter fun c => ∃ y, h.dynanys c = some y ∧ y.any.isSome

theorem mem_alive {h : Heap} (hf : Forest h) {c : Nat} :
    c ∈ alive h ↔ ∃ y, h.dynanys c = some y ∧ y.any.isSome := by
  rw [alive, Finset.mem_filter, Finset.mem_range]
  constructor
  · exact And.right
  · rintro ⟨y, hy, ha⟩
    exact ⟨hf.bound c y hy, y, hy, ha⟩

theorem card_alive_le (h : Heap) : (alive h).card ≤ h.next := by
  have hc := Finset.card_filter_le (Finset.range h.next)
    fun c => ∃ y, h.dynanys c = some y ∧ y.any.isSome = true
  rwa [Finset.card_range] at hc

/-- The state behind `unlink` for a child. -/
def unlinked (h : Heap) (d c : Nat) (x y : DynAny) : Heap :=
  (h.set d { x with children := x.children.erase c }).set c { y with any := none, parent := none }

theorem unlink_child {h : Heap} (hf : Forest h) {d c : Nat} {x : DynAny}
    (hd : h.dynanys d = some x) (hc : c ∈ x.children) :
    ∃ y a, h.dynanys c = some y ∧ y.parent = some d ∧ d < c ∧ y.any = some a ∧
      unlink h c = .ok (unlinked h d c x y) := by
  obtain ⟨y, a, hy, hp, hlt, ha, hr⟩ := hf.listed d x c hd hc
  refine ⟨y, a, hy, hp, hlt, ha, ?_⟩
  simp only [unlink, dynany_ok hy, dynany_ok hd, bind, Except.bind, ha, hp, hr]
  rfl

theorem forest_unlinked {h : Heap} (hf : Forest h) {d c : Nat} {x y : DynAny}
    (hd : h.dynanys d = some x) (hy : h.dynanys c = some y) (hp : y.parent = some d) :
    Forest (unlinked h d c x y) := by
  obtain ⟨x', hx', hmem⟩ := hf.back c y d hy hp
  cases hd.symm.trans hx'
  have hne : d ≠ c := by
    obtain ⟨-, -, -, -, hlt, -⟩ := hf.listed d x c hd hmem
    omega
  have hsame : ∀ z, z ≠ c → z ≠ d → (unlinked h d c x y).dynanys z = h.dynanys z := by
    intro z hzc hzd
    simp [unlinked, hzc, hzd]
  have hatc : (unlinked h d c x y).dynanys c = some { y with any := none, parent := none } := by
    simp [unlinked]
  have hatd : (unlinked h d c x y).dynanys d =
      some { x with children := x.children.erase c } := by simp [unlinked, hne]
  -- whatever lists a DynAny now has listed it before, and it was not `c` that was listed
  have hold : ∀ z w' e, (unlinked h d c x y).dynanys z = some w' → e ∈ w'.children →
      ∃ w, h.dynanys z = some w ∧ e ∈ w.children ∧ e ≠ c := by
    intro z w' e hz he
    by_cases hzc : z = c
    · subst z
      rw [hatc] at hz
      cases hz
      refine ⟨y, hy, he, fun hec => ?_⟩
      subst e
      obtain ⟨-, -, -, -, hlt, -⟩ := hf.listed c y c hy he
      omega
    · by_cases hzd : z = d
      · subst z
        rw [hatd] at hz
        cases hz
        have hn := (List.Nodup.mem_erase_iff (hf.nodup d x hd)).mp he
        exact ⟨x, hd, hn.2, hn.1⟩
      · rw [hsame z hzc hzd] at hz
        refine ⟨w', hz, he, fun hec => ?_⟩
        subst e
        obtain ⟨y', -, hy', hp', -⟩ := hf.listed z w' c hz he
        cases hy.symm.trans hy'
        cases hp.symm.trans hp'
        exact hzd rfl
  refine ⟨fun z w hz => ?_, fun z w' e hz he => ?_, fun z w hz => ?_, fun e w p hw hwp => ?_⟩
  · change z < h.next
    by_cases hzc : z = c
    · exact hzc ▸ hf.bound c y hy
    · by_cases hzd : z = d
      · exact hzd ▸ hf.bound d x hd
      · exact hf.bound z w (hsame z hzc hzd ▸ hz)
  · obtain ⟨w, hw, he', hec⟩ := hold z w' e hz he
    obtain ⟨v, a, hv, hvp, hlt, ha, hr⟩ := hf.listed z w e hw he'
    by_cases hed : e = d
    · subst e
      cases hd.symm.trans hv
      exact ⟨_, a, hatd, hvp, hlt, ha, hr⟩
    · exact ⟨v, a, (hsame e hec hed).trans hv, hvp, hlt, ha, hr⟩
  · by_cases hzc : z = c
    · subst z
      rw [hatc] at hz
      cases hz
      exact hf.nodup c y hy
    · by_cases hzd : z = d
      · subst z
        rw [hatd] at hz
        cases hz
        exact (hf.nodup d x hd).erase c
      · exact hf.nodup z w (hsame z hzc hzd ▸ hz)
  · have hec : e ≠ c := by
      rintro rfl
      rw [hatc] at hw
      cases hw
      cases hwp
    have hback : ∃ v, h.dynanys e = some v ∧ v.parent = some p := by
      by_cases hed : e = d
      · subst e
        rw [hatd] at hw
        cases hw
        exact ⟨x, hd, hwp⟩
      · exact ⟨w, hsame e hec hed ▸ hw, hwp⟩
    obtain ⟨v, hv, hvp⟩ := hback
    obtain ⟨u, hu, heu⟩ := hf.back e v p hv hvp
    by_cases hpc : p = c
    · subst p
      cases hy.symm.trans hu
      exact ⟨_, hatc, heu⟩
    · by_cases hpd : p = d
      · subst p
        cases hd.symm.trans hu
        exact ⟨_, hatd, (List.mem_erase_of_ne hec).mpr heu⟩
      · exact ⟨u, (hsame p hpc hpd).trans hu, heu⟩

theorem Pruned.refl {h : Heap} (hf : Forest h) {d : Nat} {x : DynAny} (hd : h.dynanys d = some x)
    (hc : x.children = []) : Pruned h h d := by
  refine ⟨rfl, rfl, ⟨x, hd, ?_⟩, fun _ _ => rfl, fun _ _ => .inl rfl, hf⟩
  rw [hd, ← hc]

theorem Pruned.alive_subset {h h' : Heap} {d : Nat} (hf : Forest h) (hp : Pruned h h' d) :
    alive h' ⊆ alive h := by
  intro c hc
  obtain ⟨y, hy, ha⟩ := (mem_alive hp.forest).mp hc
  rw [mem_alive hf]
  by_cases hcd : c = d
  · subst c
    obtain ⟨x, hx, hx'⟩ := hp.root
    cases hx'.symm.trans hy
    exact ⟨x, hx, ha⟩
  · rcases hp.rest c hcd with he | ⟨z, -, hz'⟩
    · exact ⟨y, he ▸ hy, ha⟩
    · cases hz'.symm.trans hy
      cases ha

/-- One round of the loop, with what is done for the child. -/
theorem Pruned.round {h h₂ h₃ : Heap} {d c : Nat} {x y : DynAny} (hd : h.dynanys d = some x)
    (hy : h.dynanys c = some y) (hlt : d < c) (h₁₂ : Pruned (unlinked h d c x y) h₂ c)
    (h₂₃ : Pruned h₂ h₃ d) : Pruned h h₃ d := by
  have hsame : ∀ z, z ≠ c → z ≠ d → (unlinked h d c x y).dynanys z = h.dynanys z := by
    intro z hzc hzd
    simp [unlinked, hzc, hzd]
  have hatc : (unlinked h d c x y).dynanys c = some { y with any := none, parent := none } := by
    simp [unlinked]
  have hne : d ≠ c := by omega
  have hatd : (unlinked h d c x y).dynanys d =
      some { x with children := x.children.erase c } := by simp [unlinked, hne]
  have hmid : ∀ z, z ≠ d → h₂.dynanys z = h.dynanys z ∨
      ∃ w, h.dynanys z = some w ∧ h₂.dynanys z = some w.nulled := by
    intro z hzd
    by_cases hzc : z = c
    · subst z
      obtain ⟨w, hw, hw'⟩ := h₁₂.root
      cases hatc.symm.trans hw
      exact .inr ⟨y, hy, hw'⟩
    · rcases h₁₂.rest z hzc with he | ⟨w, hw, hw'⟩
      · exact .inl (he.trans (hsame z hzc hzd))
      · exact .inr ⟨w, (hsame z hzc hzd).symm.trans hw, hw'⟩
  refine ⟨h₂₃.blocks.trans h₁₂.blocks, h₂₃.next.trans h₁₂.next, ?_, fun z hz => ?_,
    fun z hz => ?_, h₂₃.forest⟩
  · obtain ⟨w, hw, hw'⟩ := h₂₃.root
    rw [h₁₂.older d hlt, hatd] at hw
    cases hw
    exact ⟨x, hd, hw'⟩
  · rw [h₂₃.older z hz, h₁₂.older z (by omega), hsame z (by omega) (by omega)]
  · rcases h₂₃.rest z hz with he | ⟨w, hw, hw'⟩
    · rcases hmid z hz with he' | ⟨v, hv, hv'⟩
      · exact .inl (he.trans he')
      · exact .inr ⟨v, hv, he.trans hv'⟩
    · rcases hmid z hz with he' | ⟨v, hv, hv'⟩
      · exact .inr ⟨w, he'.symm.trans hw, hw'⟩
      · cases hv'.symm.trans hw
        exact .inr ⟨v, hv, hw'⟩

/-- The loop ends, uses nothing that is freed, and leaves a pruned forest. Every turn takes the any
of a DynAny away. -/
theorem invalidateChildren_ok (n : Nat) : ∀ {h : Heap} {d : Nat} {x : DynAny}, Forest h →
    h.dynanys d = some x → (alive h).card < n →
    ∃ h', invalidateChildren n h d = .ok h' ∧ Pruned h h' d := by
  induction n with
  | zero => exact fun _ _ hn => absurd hn (Nat.not_lt_zero _)
  | succ n ih =>
    intro h d x hf hd hn
    cases hc : x.children with
    | nil =>
      refine ⟨h, ?_, Pruned.refl hf hd hc⟩
      simp only [invalidateChildren, dynany_ok hd, bind, Except.bind, hc]
    | cons c cs =>
      have hmem : c ∈ x.children := hc ▸ List.mem_cons_self
      obtain ⟨y, a, hy, hp, hlt, ha, hu⟩ := unlink_child hf hd hmem
      have hf₁ := forest_unlinked hf hd hy hp
      have hatc : (unlinked h d c x y).dynanys c = some { y with any := none, parent := none } := by
        simp [unlinked]
      have hsub : alive (unlinked h d c x y) ⊂ alive h := by
        refine Finset.ssubset_iff_subset_ne.mpr ⟨fun z hz => ?_, fun he => ?_⟩
        · obtain ⟨w, hw, hwa⟩ := (mem_alive hf₁).mp hz
          rw [mem_alive hf]
          by_cases hzc : z = c
          · subst z
            cases hatc.symm.trans hw
            cases hwa
          · by_cases hzd : z = d
            · subst z
              simp only [unlinked, set_dynanys, hzc, if_false, if_true] at hw
              cases hw
              exact ⟨x, hd, hwa⟩
            · simp only [unlinked, set_dynanys, hzc, hzd, if_false] at hw
              exact ⟨w, hw, hwa⟩
        · have hcin : c ∈ alive h := (mem_alive hf).mpr ⟨y, hy, by rw [ha]; rfl⟩
          rw [← he] at hcin
          obtain ⟨w, hw, hwa⟩ := (mem_alive hf₁).mp hcin
          cases hatc.symm.trans hw
          cases hwa
      have hcard := Finset.card_lt_card hsub
      obtain ⟨h₂, hi₂, hp₂⟩ := ih hf₁ hatc (by omega)
      have hd₂ : h₂.dynanys d = some { x with children := x.children.erase c } := by
        rw [hp₂.older d hlt]
        have hne : d ≠ c := by omega
        simp [unlinked, hne]
      have hcard₂ := Finset.card_le_card (hp₂.alive_subset hf₁)
      obtain ⟨h₃, hi₃, hp₃⟩ := ih hp₂.forest hd₂ (by omega)
      refine ⟨h₃, ?_, Pruned.round hd hy hlt hp₂ hp₃⟩
      simp only [invalidateChildren, dynany_ok hd, bind, Except.bind, hc, hu, hi₂, hi₃]

end ORBit2.Dynamic
