import ORBit2.DynAnyInvariant

/-! What each call does to DynAnys that stand where they should. -/

set_option autoImplicit false

namespace ORBit2.Dynamic

open Storage Storage.Store

/-- Moving the cursor. -/
theorem Kept.setIdx {h : Heap} (hk : Kept h) {d : Nat} {x : DynAny} (hd : h.dynanys d = some x)
    {idx : Int} (hidx : ∀ a n, x.any = some a → fixedCount a.type = some n → idx ≤ 0 ∨ idx < n) :
    Kept (h.set d { x with idx := idx }) := by
  have hentry : ∀ {c z}, (h.set d { x with idx := idx }).dynanys c = some z →
      ∃ z', h.dynanys c = some z' ∧ z.any = z'.any ∧ z.parent = z'.parent ∧
        z.parentIdx = z'.parentIdx ∧ z.children = z'.children ∧
        (z.idx = z'.idx ∨ c = d ∧ z.idx = idx) := by
    intro c z hz
    rw [set_dynanys] at hz
    split at hz
    · rename_i hcd
      cases hz
      exact ⟨x, hcd ▸ hd, rfl, rfl, rfl, rfl, .inr ⟨hcd, rfl⟩⟩
    · exact ⟨z, hz, rfl, rfl, rfl, rfl, .inl rfl⟩
  have hold : ∀ {c z}, h.dynanys c = some z → ∃ z', (h.set d { x with idx := idx }).dynanys c =
      some z' ∧ z'.any = z.any ∧ z'.parent = z.parent ∧ z'.children = z.children := by
    intro c z hz
    rw [set_dynanys]
    split
    · rename_i hcd
      subst c
      cases hd.symm.trans hz
      exact ⟨_, rfl, rfl, rfl, rfl⟩
    · exact ⟨z, hz, rfl, rfl, rfl⟩
  have hforest : Forest (h.set d { x with idx := idx }) := by
    refine ⟨fun c z hz => ?_, fun c z e hz he => ?_, fun c z hz => ?_, fun e w q hw hwq => ?_⟩
    · obtain ⟨z', hz', -⟩ := hentry hz
      exact hk.bound c z' hz'
    · obtain ⟨z', hz', -, -, -, hch, -⟩ := hentry hz
      obtain ⟨w, b, hw, hwp, hlt, hb, hr⟩ := hk.listed c z' e hz' (hch ▸ he)
      obtain ⟨w', hw', ha, hp, -⟩ := hold hw
      exact ⟨w', b, hw', hp.trans hwp, hlt, ha.trans hb, hr⟩
    · obtain ⟨z', hz', -, -, -, hch, -⟩ := hentry hz
      exact hch ▸ hk.nodup c z' hz'
    · obtain ⟨w', hw', -, hp, -⟩ := hentry hw
      obtain ⟨z, hz, hmem⟩ := hk.back e w' q hw' (hp.symm.trans hwq)
      obtain ⟨z', hz', -, -, hch⟩ := hold hz
      exact ⟨z', hz', hch ▸ hmem⟩
  refine ⟨hforest, fun c z hz hnone => ?_, hk.allocated, fun c z any q hz hza hq => ?_,
    fun c z any q u hz hza hzq hu => ?_, fun c z any hz hza hzp => ?_,
    fun c z any q c' z' any' q' hz hza hzp hq hz' hza' hzp' hq' he => ?_,
    fun c z any n hz hza hn => ?_, fun c z any hz hza hnone => ?_, fun c z any hz hza => ?_⟩
  · obtain ⟨z', hz', ha, hp, -, hch, -⟩ := hentry hz
    obtain ⟨h1, h2⟩ := hk.idle c z' hz' (ha.symm.trans hnone)
    exact ⟨hch.trans h1, hp.trans h2⟩
  · obtain ⟨z', hz', ha, -⟩ := hentry hz
    exact hk.stands c z' any q hz' (ha.symm.trans hza) hq
  · obtain ⟨z', hz', ha, hp, hpi, -⟩ := hentry hz
    obtain ⟨u', hu', hua, -⟩ := hentry hu
    obtain ⟨o, w, h1, h2, h3⟩ := hk.child c z' any q u' hz' (ha.symm.trans hza)
      (hp.symm.trans hzq) hu'
    exact ⟨o, w, hua.trans h1, h2, hpi ▸ h3⟩
  · obtain ⟨z', hz', ha, hp, -⟩ := hentry hz
    exact hk.root c z' any hz' (ha.symm.trans hza) (hp.symm.trans hzp)
  · obtain ⟨w, hw, ha, hp, -⟩ := hentry hz
    obtain ⟨w', hw', ha', hp', -⟩ := hentry hz'
    exact hk.owner c w any q c' w' any' q' hw (ha.symm.trans hza) (hp.symm.trans hzp) hq
      hw' (ha'.symm.trans hza') (hp'.symm.trans hzp') hq' he
  · obtain ⟨z', hz', ha, -, -, -, hi | ⟨rfl, hi⟩⟩ := hentry hz
    · rw [hi]
      exact hk.cursor c z' any n hz' (ha.symm.trans hza) hn
    · cases hd.symm.trans hz'
      rw [hi]
      exact hidx any n (ha.symm.trans hza) hn
  · obtain ⟨z', hz', ha, -⟩ := hentry hz
    exact hk.empty c z' any hz' (ha.symm.trans hza) hnone
  · obtain ⟨z', hz', ha, -⟩ := hentry hz
    exact hk.wellFormed c z' any hz' (ha.symm.trans hza)

/-- `dynany_invalidate` without the DynAny itself. -/
theorem invalidate_ok {h : Heap} (hk : Kept h) {d : Nat} {x : DynAny}
    (hd : h.dynanys d = some x) :
    ∃ h', invalidate h d false = .ok h' ∧ Pruned h h' d ∧ Kept h' := by
  have hcard := card_alive_le h
  obtain ⟨h', hi, hp⟩ := invalidateChildren_ok (h.next + 1) hk.toForest hd (by omega)
  refine ⟨h', hi, hp, hk.shrink ⟨hp.forest, hp.next.ge, fun c y hy => ?_, fun b => .inl ?_⟩⟩
  · by_cases hcd : c = d
    · subst c
      obtain ⟨z, hz, hz'⟩ := hp.root
      cases hz'.symm.trans hy
      exact ⟨z, hz, .inr ⟨rfl, rfl, rfl, rfl, fun _ => rfl⟩⟩
    · rcases hp.rest c hcd with he | ⟨z, hz, hz'⟩
      · exact ⟨y, he ▸ hy, .inr ⟨rfl, rfl, rfl, rfl, fun ha => (hk.idle c y (he ▸ hy) ha).1⟩⟩
      · cases hz'.symm.trans hy
        exact ⟨z, hz, .inl rfl⟩
  · rw [hp.blocks]

theorem release_ok {h : Heap} (hk : Kept h) {d : Nat} {x : DynAny} (hd : h.dynanys d = some x)
    (hroot : x.parent = none) :
    ∃ h₁ h', releaseFn h d = .ok h' ∧ Pruned h h₁ d ∧ Kept h₁ ∧ Shrunk h₁ h' := by
  obtain ⟨h₁, hi, hp, hk₁⟩ := invalidate_ok hk hd
  obtain ⟨z, hz, hd₁⟩ := hp.root
  cases hd.symm.trans hz
  -- whoever is left does not have the DynAny for a parent
  have hforest : ∀ blocks next, h₁.next ≤ next →
      Forest ⟨Function.update h₁.dynanys d none, blocks, next⟩ := by
    intro blocks next hnext
    have hentry : ∀ {c y}, Function.update h₁.dynanys d none c = some y →
        c ≠ d ∧ h₁.dynanys c = some y := by
      intro c y hy
      rw [Function.update_apply] at hy
      split at hy
      · cases hy
      · rename_i hcd
        exact ⟨hcd, hy⟩
    refine ⟨fun c y hy => ?_, fun c y e hy he => ?_, fun c y hy => ?_, fun e w p hw hwp => ?_⟩
    · exact Nat.lt_of_lt_of_le (hk₁.bound c y (hentry hy).2) hnext
    · obtain ⟨w, b, hw, hwp, hrest⟩ := hk₁.listed c y e (hentry hy).2 he
      have hed : e ≠ d := by
        rintro rfl
        cases hd₁.symm.trans hw
        rw [hroot] at hwp
        cases hwp
      exact ⟨w, b, (Function.update_of_ne hed _ _).trans hw, hwp, hrest⟩
    · exact hk₁.nodup c y (hentry hy).2
    · obtain ⟨y, hy, hmem⟩ := hk₁.back e w p (hentry hw).2 hwp
      have hpd : p ≠ d := by
        rintro rfl
        cases hd₁.symm.trans hy
        cases hmem
      exact ⟨y, (Function.update_of_ne hpd _ _).trans hy, hmem⟩
  have hentries : ∀ c y, Function.update h₁.dynanys d none c = some y →
      ∃ z, h₁.dynanys c = some z ∧ (y = z.nulled ∨ y.any = z.any ∧ y.parent = z.parent ∧
        y.parentIdx = z.parentIdx ∧ y.idx = z.idx ∧ (z.any = none → y.children = [])) := by
    intro c y hy
    rw [Function.update_apply] at hy
    split at hy
    · cases hy
    · exact ⟨y, hy, .inr ⟨rfl, rfl, rfl, rfl, fun ha => (hk₁.idle c y hy ha).1⟩⟩
  have hgone : ∀ y, Function.update h₁.dynanys d none d = some y → y.any = none := by
    intro y hy
    rw [Function.update_self] at hy
    cases hy
  refine ⟨h₁, ?_⟩
  simp only [releaseFn, hi, dynany_ok hd₁, bind, Except.bind]
  cases ha : x.any with
  | none =>
    exact ⟨_, rfl, hp, hk₁, ⟨hforest _ _ (Nat.le_refl _), Nat.le_refl _, hentries,
      fun b => .inl rfl⟩⟩
  | some a =>
    obtain ⟨hr, hpath⟩ := hk₁.root d _ a hd₁ ha hroot
    simp only [hr, if_true]
    cases hv : a.value with
    | none =>
      exact ⟨_, rfl, hp, hk₁, ⟨hforest _ _ (Nat.le_refl _), Nat.le_refl _, hentries,
        fun b => .inl rfl⟩⟩
    | some v =>
      obtain ⟨b, w, -, -, hb, -⟩ := hk₁.stands d _ a v hd₁ ha hv
      simp only [Heap.free, hb]
      refine ⟨_, rfl, hp, hk₁, ⟨hforest _ _ (Nat.le_refl _), Nat.le_refl _, hentries,
        fun c => ?_⟩⟩
      by_cases hc : c = v.block
      · subst c
        exact .inr ⟨Function.update_self _ _ _, d, _, a, v, hd₁, ha, hroot, hv, rfl, hgone⟩
      · exact .inl (Function.update_of_ne hc _ _)

/-- A DynAny without parent that has lost its any. -/
theorem forest_disowned {h : Heap} (hf : Forest h) {d : Nat} {x : DynAny}
    (hd : h.dynanys d = some x) (hp : x.parent = none) (blocks : Nat → Option (CTypeCode × Stored)) :
    Forest (Heap.set { h with blocks := blocks } d { x with any := none, parent := none }) := by
  have hentry : ∀ {c y}, (Heap.set { h with blocks := blocks } d { x with any := none, parent := none }).dynanys c =
      some y → ∃ z, h.dynanys c = some z ∧ y.children = z.children ∧ y.parent = z.parent := by
    intro c y hy
    rw [set_dynanys] at hy
    split at hy
    · rename_i hcd
      cases hy
      exact ⟨x, hcd ▸ hd, rfl, hp.symm⟩
    · exact ⟨y, hy, rfl, rfl⟩
  refine ⟨fun c y hy => ?_, fun c y e hy he => ?_, fun c y hy => ?_, fun e w p hw hwp => ?_⟩
  · obtain ⟨z, hz, -⟩ := hentry hy
    exact hf.bound c z hz
  · obtain ⟨z, hz, hch, -⟩ := hentry hy
    obtain ⟨w, b, hw, hwp, hrest⟩ := hf.listed c z e hz (hch ▸ he)
    have hed : e ≠ d := by
      rintro rfl
      cases hd.symm.trans hw
      rw [hp] at hwp
      cases hwp
    refine ⟨w, b, ?_, hwp, hrest⟩
    rw [set_dynanys, if_neg hed]
    exact hw
  · obtain ⟨z, hz, hch, -⟩ := hentry hy
    exact hch ▸ hf.nodup c z hz
  · obtain ⟨w', hw', -, hq⟩ := hentry hw
    obtain ⟨z, hz, hmem⟩ := hf.back e w' p hw' (hq ▸ hwp)
    by_cases hpd : p = d
    · subst p
      cases hd.symm.trans hz
      exact ⟨{ x with any := none, parent := none }, by rw [set_dynanys, if_pos rfl], hmem⟩
    · refine ⟨z, ?_, hmem⟩
      rw [set_dynanys, if_neg hpd]
      exact hz

/-- The state behind `unlink`. -/
structure Unlinked (h h' : Heap) (d : Nat) (x : DynAny) (a : CorbaAny) : Prop where
  forest : Forest h'
  next : h'.next = h.next
  entry : h'.dynanys d = some { x with any := none, parent := none }
  rest : ∀ c y, c ≠ d → h'.dynanys c = some y → ∃ z, h.dynanys c = some z ∧ y.any = z.any ∧
    y.parent = z.parent ∧ y.parentIdx = z.parentIdx ∧ y.idx = z.idx ∧
    (z.any = none → y.children = [])
  blocks : ∀ b, h'.blocks b = h.blocks b ∨ h'.blocks b = none ∧ x.parent = none ∧
    ∃ v, a.value = some v ∧ v.block = b

theorem unlink_ok {h : Heap} (hk : Kept h) {d : Nat} {x : DynAny} {a : CorbaAny}
    (hd : h.dynanys d = some x) (ha : x.any = some a) :
    ∃ h', unlink h d = .ok h' ∧ Unlinked h h' d x a := by
  cases hp : x.parent with
  | some p =>
    obtain ⟨y, hy, hmem⟩ := hk.back d x p hd hp
    obtain ⟨x', a', hx', -, hlt, -, hu⟩ := unlink_child hk.toForest hy hmem
    cases hd.symm.trans hx'
    refine ⟨_, hu, forest_unlinked hk.toForest hy hd hp, rfl, by simp [unlinked],
      fun c z hcd hz => ?_, fun b => .inl rfl⟩
    by_cases hcp : c = p
    · subst c
      simp only [unlinked, set_dynanys, hcd, if_false, if_true, Option.some.injEq] at hz
      subst z
      refine ⟨y, hy, rfl, rfl, rfl, rfl, fun hnone => ?_⟩
      rw [(hk.idle p y hy hnone).1] at hmem
      cases hmem
    · simp only [unlinked, set_dynanys, hcd, hcp, if_false] at hz
      exact ⟨z, hz, rfl, rfl, rfl, rfl, fun hnone => (hk.idle c z hz hnone).1⟩
  | none =>
    obtain ⟨hr, -⟩ := hk.root d x a hd ha hp
    have hrest : ∀ blocks c y, c ≠ d →
        (Heap.set { h with blocks := blocks } d { x with any := none, parent := none }).dynanys c =
          some y →
        ∃ z, h.dynanys c = some z ∧ y.any = z.any ∧ y.parent = z.parent ∧
          y.parentIdx = z.parentIdx ∧ y.idx = z.idx ∧ (z.any = none → y.children = []) := by
      intro blocks c y hcd hy
      rw [set_dynanys, if_neg hcd] at hy
      exact ⟨y, hy, rfl, rfl, rfl, rfl, fun hnone => (hk.idle c y hy hnone).1⟩
    have hentry : ∀ blocks, (Heap.set { h with blocks := blocks } d
        { x with any := none, parent := none }).dynanys d =
        some { x with any := none, parent := none } := by
      intro blocks
      rw [set_dynanys, if_pos rfl]
    simp only [unlink, dynany_ok hd, bind, Except.bind, ha, hp, hr, if_true]
    cases hv : a.value with
    | none =>
      exact ⟨_, rfl, forest_disowned hk.toForest hd hp h.blocks, rfl, hentry h.blocks,
        hrest h.blocks, fun b => .inl rfl⟩
    | some v =>
      obtain ⟨b, w, -, -, hb, -⟩ := hk.stands d x a v hd ha hv
      simp only [Heap.free, hb]
      refine ⟨_, rfl, forest_disowned hk.toForest hd hp _, rfl, hentry _, hrest _, fun c => ?_⟩
      by_cases hc : c = v.block
      · exact .inr ⟨hc ▸ Function.update_self _ _ _, hp, v, hv, hc.symm⟩
      · exact .inl (Function.update_of_ne hc _ _)

/-- `dynany_invalidate` with the DynAny itself. -/
theorem invalidateCur_ok {h : Heap} (hk : Kept h) {d : Nat} {x : DynAny} {a : CorbaAny}
    (hd : h.dynanys d = some x) (ha : x.any = some a) :
    ∃ h', invalidate h d true = .ok h' ∧ Shrunk h h' ∧ h'.dynanys d = some x.nulled ∧
      ∀ b, h'.blocks b = h.blocks b ∨ x.parent = none ∧ ∃ v, a.value = some v ∧ v.block = b := by
  obtain ⟨h₀, hu, hun⟩ := unlink_ok hk hd ha
  have hcard := card_alive_le h₀
  obtain ⟨h₁, hi, hp⟩ := invalidateChildren_ok (h₀.next + 1) hun.forest hun.entry (by omega)
  have hd₁ : h₁.dynanys d = some x.nulled := by
    obtain ⟨z, hz, hz'⟩ := hp.root
    cases hun.entry.symm.trans hz
    exact hz'
  have hentries : ∀ c y', h₁.dynanys c = some y' → ∃ y, h.dynanys c = some y ∧
      (y' = y.nulled ∨ y'.any = y.any ∧ y'.parent = y.parent ∧ y'.parentIdx = y.parentIdx ∧
        y'.idx = y.idx ∧ (y.any = none → y'.children = [])) := by
    intro c y' hy'
    by_cases hcd : c = d
    · subst c
      cases hd₁.symm.trans hy'
      exact ⟨x, hd, .inl rfl⟩
    · rcases hp.rest c hcd with he | ⟨z, hz, hz'⟩
      · obtain ⟨y, hy, hrest⟩ := hun.rest c y' hcd (he ▸ hy')
        exact ⟨y, hy, .inr hrest⟩
      · cases hz'.symm.trans hy'
        obtain ⟨y, hy, h1, h2, h3, h4, h5⟩ := hun.rest c z hcd hz
        refine ⟨y, hy, ?_⟩
        cases hya : y.any with
        | none =>
          exact .inr ⟨rfl, (hk.idle c y hy hya).2.symm, h3, h4, fun _ => rfl⟩
        | some b =>
          refine .inl ?_
          rw [DynAny.nulled, DynAny.nulled, h3, h4]
  have hs : Shrunk h h₁ := by
    refine ⟨hp.forest, (hp.next.trans hun.next).ge, hentries, fun b => ?_⟩
    rw [hp.blocks]
    rcases hun.blocks b with he | ⟨he, hroot, v, hv, hb⟩
    · exact .inl he
    · refine .inr ⟨he, d, x, a, v, hd, ha, hroot, hv, hb, fun x' hx' => ?_⟩
      cases hd₁.symm.trans hx'
      rfl
  refine ⟨h₁, ?_, hs, hd₁, fun b => ?_⟩
  · simp only [invalidate, hu, bind, Except.bind, if_true]
    exact hi
  · rw [hp.blocks]
    exact (hun.blocks b).imp id And.right

end ORBit2.Dynamic
