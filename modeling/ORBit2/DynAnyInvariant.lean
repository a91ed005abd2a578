import ORBit2.DynAnyLinks

/-! Where DynAnys stand: every DynAny points to a value of its type, a child to the component of
its parent that its index names. -/

set_option autoImplicit false

namespace ORBit2.Dynamic

open Storage Storage.Store

/-- The number of components, where the type has it. -/
def fixedCount (tc : CTypeCode) : Option Nat :=
  match tc.skipAlias.kind with
  | .array => some tc.skipAlias.info.length
  | .struct | .except => some tc.skipAlias.subtypes.length
  | _ => none

/-- There is a value of type `tc` at `v`. -/
def Stands (h : Heap) (tc : CTypeCode) (v : Addr) : Prop :=
  ∃ b w u t, h.blocks v.block = some (b, w) ∧ w.follow v.path = some u ∧
    typeAt b v.path = some t ∧ t.skipAlias = tc.skipAlias

structure Kept (h : Heap) : Prop extends Forest h where
  idle : ∀ d x, h.dynanys d = some x → x.any = none → x.children = [] ∧ x.parent = none
  allocated : ∀ b tc v, h.blocks b = some (tc, v) → b < h.next ∧ hasType tc v = true
  stands : ∀ d x a v, h.dynanys d = some x → x.any = some a → a.value = some v →
    Stands h a.type v
  child : ∀ d x a p y, h.dynanys d = some x → x.any = some a → x.parent = some p →
    h.dynanys p = some y →
    ∃ other v, y.any = some other ∧ a.value = some v ∧ getValue h other x.parentIdx = .ok (some v)
  root : ∀ d x a, h.dynanys d = some x → x.any = some a → x.parent = none →
    a.release = true ∧ ∀ v, a.value = some v → v.path = []
  owner : ∀ d x a v d' x' a' v', h.dynanys d = some x → x.any = some a → x.parent = none →
    a.value = some v → h.dynanys d' = some x' → x'.any = some a' → x'.parent = none →
    a'.value = some v' → v.block = v'.block → d = d'
  cursor : ∀ d x a n, h.dynanys d = some x → x.any = some a → fixedCount a.type = some n →
    x.idx ≤ 0 ∨ x.idx < n
  empty : ∀ d x a, h.dynanys d = some x → x.any = some a → a.value = none →
    a.type.gatherAllocInfo = 0
  wellFormed : ∀ d x a, h.dynanys d = some x → x.any = some a → a.type.wellFormed = true

theorem kept_start : Kept Heap.start := by
  refine ⟨⟨?_, ?_, ?_, ?_⟩, ?_, ?_, ?_, ?_, ?_, ?_, ?_, ?_, ?_⟩ <;> intros <;> contradiction

theorem read_ok {h : Heap} {a : Addr} {u : Stored} :
    h.read a = .ok u ↔ ∃ tc w, h.blocks a.block = some (tc, w) ∧ w.follow a.path = some u := by
  rw [Heap.read]
  cases hb : h.blocks a.block with
  | none => simp
  | some b =>
    obtain ⟨tc, w⟩ := b
    cases hw : w.follow a.path with
    | none => simp [hw]
    | some x => simp [hw]

/-- The value a DynAny stands on. -/
theorem Kept.read {h : Heap} (hk : Kept h) {tc : CTypeCode} {v : Addr} (hs : Stands h tc v) :
    ∃ u, h.read v = .ok u ∧ hasType tc u = true := by
  obtain ⟨b, w, u, t, hb, hu, ht, he⟩ := hs
  obtain ⟨t', ht', hty⟩ := hasType_follow (hk.allocated _ _ _ hb).2 hu
  cases ht.symm.trans ht'
  exact ⟨u, read_ok.mpr ⟨b, w, hb, hu⟩, by rw [← hasType_congr he]; exact hty⟩

/-- `dynany_get_value` looks at the shape of the value and at nothing else. -/
theorem getValue_of_shape {h h' : Heap} {any : CorbaAny} {idx : Int}
    (hs : ∀ a, any.value = some a → any.type.skipAlias.kind = .sequence →
      ∃ u u', h.read a = .ok u ∧ h'.read a = .ok u' ∧ u'.shape = u.shape) :
    getValue h' any idx = getValue h any idx := by
  unfold getValue
  simp only
  split
  · rfl
  · split
    · rfl
    · split <;> try rfl
      rename_i hkind
      cases ha : any.value with
      | none => rfl
      | some a =>
        obtain ⟨u, u', hu, hu', hsh⟩ := hs a ha hkind
        simp only [hu, hu', bind, Except.bind]
        cases u with
        | leaf => cases u' <;> first | rfl | cases hsh
        | record => cases u' <;> first | rfl | cases hsh
        | buffer header stamp es =>
          cases u' with
          | leaf => cases hsh
          | record => cases hsh
          | buffer header' stamp' es' =>
            simp only [shape, Option.some.injEq, Prod.mk.injEq] at hsh
            simp only [hsh.1, hsh.2]

theorem getValue_of_blocks {h h' : Heap} {any : CorbaAny} {idx : Int}
    (hb : ∀ a, any.value = some a → h'.blocks a.block = h.blocks a.block) :
    getValue h' any idx = getValue h any idx := by
  have hr : ∀ a, any.value = some a → h'.read a = h.read a := by
    intro a ha
    rw [Heap.read, Heap.read, hb a ha]
  unfold getValue
  simp only
  split
  · rfl
  · split
    · rfl
    · split <;> try rfl
      cases ha : any.value with
      | none => rfl
      | some a => simp only [hr a ha]

/-- The component a DynAny without components stands for is itself. -/
inductive ComponentOf (h : Heap) (tc : CTypeCode) (a : Addr) (idx : Int) : Addr → Prop where
  | self (hk : single tc.skipAlias.kind = true) : ComponentOf h tc a idx a
  | array (hk : tc.skipAlias.kind = .array) (hi : 0 ≤ idx) :
      ComponentOf h tc a idx (a.part (.member idx.toNat))
  | member (hk : tc.skipAlias.kind = .struct ∨ tc.skipAlias.kind = .except) (hi : 0 ≤ idx)
      (hl : idx.toNat < tc.skipAlias.subtypes.length) :
      ComponentOf h tc a idx (a.part (.member idx.toNat))
  | element (hk : tc.skipAlias.kind = .sequence) (hi : 0 ≤ idx) {header stamp : Nat}
      {es : List Stored} (hr : h.read a = .ok (.buffer header stamp es))
      (hl : idx.toNat < es.length) : ComponentOf h tc a idx (a.part (.element stamp idx.toNat))

theorem getValue_some {h : Heap} {any : CorbaAny} {idx : Int} {v : Addr}
    (hg : getValue h any idx = .ok (some v)) :
    ∃ a, any.value = some a ∧ ComponentOf h any.type a idx v := by
  unfold getValue at hg
  simp only at hg
  split at hg
  · rename_i hsingle
    exact ⟨v, Except.ok.inj hg, .self hsingle⟩
  · split at hg
    · cases hg
    · rename_i hidx
      have hi : 0 ≤ idx := by omega
      split at hg
      · rename_i hk
        cases ha : any.value with
        | none =>
          rw [ha] at hg
          cases hg
        | some a =>
          rw [ha] at hg
          cases hr : h.read a with
          | error => simp [hr, bind, Except.bind] at hg
          | ok u =>
            simp only [hr, bind, Except.bind] at hg
            cases u with
            | leaf => cases hg
            | record => cases hg
            | buffer header stamp es =>
              simp only [Except.ok.injEq] at hg
              split at hg
              · rename_i hl
                cases hg
                exact ⟨a, rfl, .element hk hi hr hl.1⟩
              · cases hg
      · rename_i hk
        cases ha : any.value with
        | none =>
          rw [ha] at hg
          cases hg
        | some a =>
          rw [ha] at hg
          cases hg
          exact ⟨a, rfl, .array hk hi⟩
      · rename_i hk
        split at hg
        · rename_i hl
          cases ha : any.value with
          | none =>
            rw [ha] at hg
            cases hg
          | some a =>
            rw [ha] at hg
            cases hg
            exact ⟨a, rfl, .member (.inl hk) hi hl⟩
        · cases hg
      · rename_i hk
        split at hg
        · rename_i hl
          cases ha : any.value with
          | none =>
            rw [ha] at hg
            cases hg
          | some a =>
            rw [ha] at hg
            cases hg
            exact ⟨a, rfl, .member (.inr hk) hi hl⟩
        · cases hg
      · cases hg

theorem ComponentOf.block {h : Heap} {tc : CTypeCode} {a v : Addr} {idx : Int}
    (hc : ComponentOf h tc a idx v) : v.block = a.block := by
  cases hc <;> rfl

/-- The state has lost DynAnys, anys, and the blocks of DynAnys that have lost their any. -/
structure Shrunk (h h' : Heap) : Prop where
  forest : Forest h'
  next : h.next ≤ h'.next
  entries : ∀ c y', h'.dynanys c = some y' → ∃ y, h.dynanys c = some y ∧
    (y' = y.nulled ∨ y'.any = y.any ∧ y'.parent = y.parent ∧ y'.parentIdx = y.parentIdx ∧
      y'.idx = y.idx ∧ (y.any = none → y'.children = []))
  blocks : ∀ b, h'.blocks b = h.blocks b ∨ h'.blocks b = none ∧
    ∃ d x a v, h.dynanys d = some x ∧ x.any = some a ∧ x.parent = none ∧ a.value = some v ∧
      v.block = b ∧ ∀ x', h'.dynanys d = some x' → x'.any = none

/-- A DynAny that still has its any. -/
theorem Shrunk.entry {h h' : Heap} (hs : Shrunk h h') {c : Nat} {y' : DynAny} {a : CorbaAny}
    (hy : h'.dynanys c = some y') (ha : y'.any = some a) :
    ∃ y, h.dynanys c = some y ∧ y.any = some a ∧ y.parent = y'.parent ∧
      y.parentIdx = y'.parentIdx ∧ y.idx = y'.idx := by
  obtain ⟨y, hy', rfl | ⟨h1, h2, h3, h4, -⟩⟩ := hs.entries c y' hy
  · cases ha
  · exact ⟨y, hy', h1 ▸ ha, h2.symm, h3.symm, h4.symm⟩

/-- The parent of such a DynAny has its any too. -/
theorem Shrunk.parent {h h' : Heap} (hk : Kept h) (hs : Shrunk h h') {c p : Nat} {y' : DynAny}
    {a : CorbaAny} (hy : h'.dynanys c = some y') (ha : y'.any = some a)
    (hp : y'.parent = some p) :
    ∃ x' other v, h'.dynanys p = some x' ∧ x'.any = some other ∧ p < c ∧ a.value = some v ∧
      getValue h other y'.parentIdx = .ok (some v) := by
  obtain ⟨x', hx', hmem⟩ := hs.forest.back c y' p hy hp
  obtain ⟨-, -, -, -, hlt, -⟩ := hs.forest.listed p x' c hx' hmem
  obtain ⟨y, hy0, ha0, hp0, hi0, -⟩ := hs.entry hy ha
  obtain ⟨x, hx, hor⟩ := hs.entries p x' hx'
  rcases hor with rfl | ⟨h1, -⟩
  · cases hmem
  · obtain ⟨other, v, ho, hv, hg⟩ := hk.child c y a p x hy0 ha0 (hp0.trans hp) hx
    exact ⟨x', other, v, hx', h1.trans ho, hlt, hv, hi0 ▸ hg⟩

/-- The block of a DynAny that still has its any is still there: the way up from it ends at the
DynAny that owns the block. -/
theorem Shrunk.block {h h' : Heap} (hk : Kept h) (hs : Shrunk h h') {c : Nat} {y' : DynAny}
    {a : CorbaAny} {v : Addr} (hy : h'.dynanys c = some y') (ha : y'.any = some a)
    (hv : a.value = some v) : h'.blocks v.block = h.blocks v.block := by
  rcases hs.blocks v.block with he | ⟨-, d, x, b, w, hd, hb, hroot, hw, hblock, hdead⟩
  · exact he
  · exfalso
    induction c using Nat.strong_induction_on generalizing y' a v with
    | _ c ih =>
      obtain ⟨y, hy0, ha0, hp0, -⟩ := hs.entry hy ha
      cases hp : y'.parent with
      | none =>
        have hcd := hk.owner c y a v d x b w hy0 ha0 (hp0.trans hp) hv hd hb hroot hw hblock.symm
        rw [hdead y' (hcd ▸ hy)] at ha
        cases ha
      | some p =>
        obtain ⟨x', other, v', hx', ho, hlt, hv', hg⟩ := hs.parent hk hy ha hp
        cases hv.symm.trans hv'
        obtain ⟨u, hu, hc⟩ := getValue_some hg
        exact ih p hlt hx' ho hu (hblock.trans hc.block)

theorem Kept.shrink {h h' : Heap} (hk : Kept h) (hs : Shrunk h h') : Kept h' := by
  refine ⟨hs.forest, fun d x' hd ha => ?_, fun b tc v hb => ?_, fun d x' a v hd ha hv => ?_,
    fun d x' a p y' hd ha hp hy => ?_, fun d x' a hd ha hp => ?_,
    fun d x a v d' x' a' v' hd ha hp hv hd' ha' hp' hv' he => ?_, fun d x' a n hd ha hn => ?_,
    fun d x' a hd ha hv => ?_, fun d x' a hd ha => ?_⟩
  · obtain ⟨x, hx, rfl | ⟨h1, h2, -, -, h5⟩⟩ := hs.entries d x' hd
    · exact ⟨rfl, rfl⟩
    · exact ⟨h5 (h1.symm.trans ha), h2.trans (hk.idle d x hx (h1.symm.trans ha)).2⟩
  · rcases hs.blocks b with he | ⟨he, -⟩
    · obtain ⟨h1, h2⟩ := hk.allocated b tc v (he ▸ hb)
      exact ⟨Nat.lt_of_lt_of_le h1 hs.next, h2⟩
    · rw [he] at hb
      cases hb
  · obtain ⟨x, hx, ha0, -⟩ := hs.entry hd ha
    obtain ⟨b, w, u, t, hb, hrest⟩ := hk.stands d x a v hx ha0 hv
    exact ⟨b, w, u, t, (hs.block hk hd ha hv).trans hb, hrest⟩
  · obtain ⟨x, other, v, hx, ho, -, hv, hg⟩ := hs.parent hk hd ha hp
    cases hy.symm.trans hx
    refine ⟨other, v, ho, hv, ?_⟩
    rw [← hg]
    exact getValue_of_blocks fun u hu => hs.block hk hy ho hu
  · obtain ⟨x, hx, ha0, hp0, -⟩ := hs.entry hd ha
    exact hk.root d x a hx ha0 (hp0.trans hp)
  · obtain ⟨y, hy, hb, hq, -⟩ := hs.entry hd ha
    obtain ⟨y', hy', hb', hq', -⟩ := hs.entry hd' ha'
    exact hk.owner d y a v d' y' a' v' hy hb (hq.trans hp) hv hy' hb' (hq'.trans hp') hv' he
  · obtain ⟨x, hx, ha0, -, -, hi⟩ := hs.entry hd ha
    rw [← hi]
    exact hk.cursor d x a n hx ha0 hn
  · obtain ⟨x, hx, ha0, -⟩ := hs.entry hd ha
    exact hk.empty d x a hx ha0 hv
  · obtain ⟨x, hx, ha0, -⟩ := hs.entry hd ha
    exact hk.wellFormed d x a hx ha0

/-- The condition under which a value at `a` may be replaced: whoever stands on it or below finds
a value of the same shape, or has handed out no component. -/
def Keeps (h : Heap) (a : Addr) (u w : Stored) : Prop :=
  ∀ c y b r z, h.dynanys c = some y → y.any = some b → b.value = some ⟨a.block, a.path ++ r⟩ →
    u.follow r = some z → ∃ z', w.follow r = some z' ∧
      (z'.shape = z.shape ∨ y.children = [] ∨ b.type.skipAlias.kind ≠ .sequence)

/-- The heap with `w` at `a`. -/
structure Written (h h' : Heap) (a : Addr) (u w : Stored) : Prop where
  dynanys : h'.dynanys = h.dynanys
  next : h'.next = h.next
  elsewhere : ∀ b, b ≠ a.block → h'.blocks b = h.blocks b
  block : ∃ tc v, h.blocks a.block = some (tc, v) ∧ v.follow a.path = some u ∧
    h'.blocks a.block = some (tc, v.put a.path w)

theorem write_ok {h : Heap} {a : Addr} {u : Stored} (hu : h.read a = .ok u) (w : Stored) :
    ∃ h', h.write a w = .ok h' ∧ Written h h' a u w := by
  obtain ⟨tc, v, hb, hv⟩ := read_ok.mp hu
  refine ⟨{ h with blocks := Function.update h.blocks a.block (some (tc, v.put a.path w)) },
    by rw [Heap.write, hb]; simp only [hv], rfl, rfl, fun b hne => ?_, tc, v, hb, hv, ?_⟩
  · exact Function.update_of_ne hne _ _
  · exact Function.update_self _ _ _

theorem Written.read_self {h h' : Heap} {a : Addr} {u w : Stored} (hw : Written h h' a u w)
    (r : List Part) {z : Stored} (hz : w.follow r = some z) :
    h'.read ⟨a.block, a.path ++ r⟩ = .ok z := by
  obtain ⟨tc, v, -, hv, hb⟩ := hw.block
  exact read_ok.mpr ⟨tc, _, hb, (follow_put_append hv w r).trans hz⟩

/-- A place is below the one that is written, or its shape is kept. -/
theorem Written.place {h h' : Heap} {a q : Addr} {u w z : Stored} (hw : Written h h' a u w)
    (hz : h.read q = .ok z) :
    (∃ r, q = ⟨a.block, a.path ++ r⟩ ∧ u.follow r = some z) ∨
      ∃ z', h'.read q = .ok z' ∧ z'.shape = z.shape := by
  obtain ⟨tc, v, hblock, hv, hblock'⟩ := hw.block
  obtain ⟨tc', x, hx, hzx⟩ := read_ok.mp hz
  by_cases hqa : q.block = a.block
  · rw [hqa, hblock] at hx
    cases hx
    by_cases hp : a.path <+: q.path
    · obtain ⟨r, hr⟩ := hp
      refine .inl ⟨r, by rw [hr, ← hqa], ?_⟩
      rw [← hr, follow_append, hv] at hzx
      exact hzx
    · obtain ⟨z', hz', hsh⟩ := follow_put_of_not_isPrefix hv hzx hp w
      exact .inr ⟨z', read_ok.mpr ⟨tc, _, hqa ▸ hblock', hz'⟩, hsh⟩
  · exact .inr ⟨z, read_ok.mpr ⟨tc', x, (hw.elsewhere _ hqa).trans hx, hzx⟩, rfl⟩

/-- What is found at the place of a DynAny afterwards. -/
theorem Written.read {h h' : Heap} {a : Addr} {u w : Stored} (hw : Written h h' a u w)
    (hkeep : Keeps h a u w) {c : Nat} {y : DynAny} {b : CorbaAny} {q : Addr} {z : Stored}
    (hy : h.dynanys c = some y) (hb : y.any = some b) (hq : b.value = some q)
    (hz : h.read q = .ok z) : ∃ z', h'.read q = .ok z' ∧
      (z'.shape = z.shape ∨ y.children = [] ∨ b.type.skipAlias.kind ≠ .sequence) := by
  rcases hw.place hz with ⟨r, rfl, hr⟩ | ⟨z', hz', hsh⟩
  · obtain ⟨z', hz', hor⟩ := hkeep c y b r z hy hb hq hr
    exact ⟨z', hw.read_self r hz', hor⟩
  · exact ⟨z', hz', .inl hsh⟩

theorem Kept.write {h h' : Heap} (hk : Kept h) {a : Addr} {tc : CTypeCode} {u w : Stored}
    (hs : Stands h tc a) (ht : hasType tc w = true) (hkeep : Keeps h a u w)
    (hw : Written h h' a u w) : Kept h' := by
  obtain ⟨b, v, hblock, hv, hblock'⟩ := hw.block
  have hforest : Forest h' := by
    obtain ⟨f1, f2, f3, f4⟩ := hk.toForest
    rw [← hw.dynanys] at f1 f2 f3 f4
    rw [← hw.next] at f1
    exact ⟨f1, f2, f3, f4⟩
  -- the place of a DynAny has the type it had
  have hstands : ∀ c y any q, h.dynanys c = some y → y.any = some any → any.value = some q →
      Stands h' any.type q := by
    intro c y any q hy hany hq
    obtain ⟨b', x, z, t, hx, hz, hty, he⟩ := hk.stands c y any q hy hany hq
    obtain ⟨z', hz', -⟩ := hw.read hkeep hy hany hq (read_ok.mpr ⟨b', x, hx, hz⟩)
    obtain ⟨b'', x', hx', hz''⟩ := read_ok.mp hz'
    have hbb : b'' = b' := by
      by_cases hqa : q.block = a.block
      · rw [hqa] at hx hx'
        cases hblock.symm.trans hx
        cases hblock'.symm.trans hx'
        rfl
      · rw [hw.elsewhere _ hqa, hx] at hx'
        cases hx'
        rfl
    subst b''
    exact ⟨b', x', z', t, hx', hz'', hty, he⟩
  refine ⟨hforest, fun d x hd => ?_, fun c tc' x hc => ?_, fun d x any q hd => ?_,
    fun d x any p y hd hany hp hy => ?_, fun d x any hd => ?_,
    fun d x any q d' x' any' q' hd hany hp hq hd' => ?_, fun d x any n hd => ?_,
    fun d x any hd => ?_, fun d x any hd => ?_⟩
  · exact hk.idle d x (hw.dynanys ▸ hd)
  · rw [hw.next]
    by_cases hca : c = a.block
    · subst c
      rw [hblock'] at hc
      cases hc
      obtain ⟨hlt, hty⟩ := hk.allocated _ _ _ hblock
      obtain ⟨b', x', u', t, hx', -, hpath, he⟩ := hs
      cases hblock.symm.trans hx'
      exact ⟨hlt, hasType_put hty hpath (by rw [hasType_congr he]; exact ht)⟩
    · exact hk.allocated c tc' x (hw.elsewhere c hca ▸ hc)
  · exact hstands d x any q (hw.dynanys ▸ hd)
  · rw [hw.dynanys] at hd hy
    obtain ⟨other, q, ho, hq, hg⟩ := hk.child d x any p y hd hany hp hy
    refine ⟨other, q, ho, hq, ?_⟩
    rw [← hg]
    refine getValue_of_shape fun q' hq' hseq => ?_
    obtain ⟨z, hz, -⟩ := hk.read (hk.stands p y other q' hy ho hq')
    obtain ⟨z', hz', hor⟩ := hw.read hkeep hy ho hq' hz
    refine ⟨z, z', hz, hz', ?_⟩
    rcases hor with hsh | hnil | hne
    · exact hsh
    · obtain ⟨y', hy', hmem⟩ := hk.back d x p hd hp
      cases hy.symm.trans hy'
      rw [hnil] at hmem
      cases hmem
    · exact absurd hseq hne
  · exact hk.root d x any (hw.dynanys ▸ hd)
  · rw [hw.dynanys] at hd hd'
    exact hk.owner d x any q d' x' any' q' hd hany hp hq hd'
  · exact hk.cursor d x any n (hw.dynanys ▸ hd)
  · exact hk.empty d x any (hw.dynanys ▸ hd)
  · exact hk.wellFormed d x any (hw.dynanys ▸ hd)

theorem Kept.bump {h : Heap} (hk : Kept h) {n : Nat} (hn : h.next ≤ n) :
    Kept { h with next := n } := by
  obtain ⟨⟨f1, f2, f3, f4⟩, h1, h2, h3, h4, h5, h6, h7, h8, h9⟩ := hk
  refine ⟨⟨fun d x hd => Nat.lt_of_lt_of_le (f1 d x hd) hn, f2, f3, f4⟩, h1, fun b tc v hb => ?_,
    h3, h4, h5, h6, h7, h8, h9⟩
  obtain ⟨hlt, ht⟩ := h2 b tc v hb
  exact ⟨Nat.lt_of_lt_of_le hlt hn, ht⟩

/-- What a DynAny without parent is given for a value: nothing, or a block of its own. -/
structure Allocated (h h' : Heap) (tc : CTypeCode) (value : Option Addr) : Prop where
  dynanys : h'.dynanys = h.dynanys
  next : h.next ≤ h'.next
  old : ∀ b, b < h.next → h'.blocks b = h.blocks b
  allocated : ∀ b tc' v, h'.blocks b = some (tc', v) → b < h'.next ∧ hasType tc' v = true
  fresh : ∀ a, value = some a → h.next ≤ a.block ∧ a.path = [] ∧
    ∃ v, h'.blocks a.block = some (tc, v)
  empty : value = none → tc.gatherAllocInfo = 0

theorem allocated_allocate {h : Heap} (hk : Kept h) {tc : CTypeCode} {v : Stored}
    (ht : tc.gatherAllocInfo ≠ 0 → hasType tc v = true) :
    Allocated h (h.allocate tc v).2 tc (h.allocate tc v).1 := by
  rw [Heap.allocate]
  split
  · rename_i hz
    exact ⟨rfl, Nat.le_refl _, fun _ _ => rfl, hk.allocated, fun a ha => (by cases ha), fun _ => hz⟩
  · rename_i hz
    refine ⟨rfl, Nat.le_succ _, fun b hb => Function.update_of_ne (by omega) _ _,
      fun b tc' x hb => ?_, fun a ha => ?_, fun hn => (by cases hn)⟩
    · change Function.update h.blocks h.next (some (tc, v)) b = _ at hb
      rw [Function.update_apply] at hb
      split at hb
      · rename_i hbn
        cases hb
        exact ⟨by change b < h.next + 1; omega, ht hz⟩
      · obtain ⟨hlt, ht'⟩ := hk.allocated b tc' x hb
        exact ⟨Nat.lt_succ_of_lt hlt, ht'⟩
    · cases ha
      exact ⟨Nat.le_refl _, rfl, v, Function.update_self _ _ _⟩

/-- `ORBit_copy_value`. -/
theorem copyValue_ok {h h' : Heap} (hk : Kept h) {tc : CTypeCode} {v : Option Stored}
    {value : Option Addr} (ht : ∀ u, v = some u → hasType tc u = true)
    (hz : v = none → tc.gatherAllocInfo = 0) (hc : h.copyValue tc v = .ok (value, h')) : Allocated h h' tc value := by
  cases v with
  | none =>
    cases hc
    exact ⟨rfl, Nat.le_refl _, fun _ _ => rfl, hk.allocated, fun a ha => (by cases ha),
      fun _ => hz rfl⟩
  | some u =>
    rw [Heap.copyValue] at hc
    cases hu : copyValueCore tc h.next u with
    | error => simp [hu, bind, Except.bind] at hc
    | ok r =>
      obtain ⟨u', n⟩ := r
      simp only [hu, bind, Except.bind, Except.ok.injEq] at hc
      obtain ⟨ht', hn⟩ := copyValueCore_typed u hu (ht u rfl)
      have ha := allocated_allocate (hk.bump hn) fun _ => ht'
      rw [hc] at ha
      exact ⟨ha.dynanys, Nat.le_trans hn ha.next, fun b hb => ha.old b (Nat.lt_of_lt_of_le hb hn),
        ha.allocated, fun a hav => ⟨Nat.le_trans hn (ha.fresh a hav).1, (ha.fresh a hav).2⟩,
        ha.empty⟩

/-- A DynAny that owns its value: a new one, or one whose any has just been taken away. -/
theorem Kept.newRoot {h h' : Heap} (hk : Kept h) {d : Nat} {x : DynAny} {tc : CTypeCode}
    {value : Option Addr} (hlt : d < h.next) (hd : ∀ y, h.dynanys d = some y → y.any = none)
    (ha : Allocated h h' tc value) (hwf : tc.wellFormed = true)
    (hany : x.any = some ⟨tc, value, true⟩) (hc : x.children = [])
    (hp : x.parent = none) (hidx : ∀ n, fixedCount tc = some n → x.idx ≤ 0 ∨ x.idx < n) :
    Kept (h'.set d x) := by
  have hentry : ∀ {c y}, (h'.set d x).dynanys c = some y →
      c = d ∧ y = x ∨ c ≠ d ∧ h.dynanys c = some y := by
    intro c y hy
    rw [set_dynanys, ha.dynanys] at hy
    split at hy
    · rename_i hcd
      cases hy
      exact .inl ⟨hcd, rfl⟩
    · rename_i hcd
      exact .inr ⟨hcd, hy⟩
  have hold : ∀ {c y}, c ≠ d → h.dynanys c = some y → (h'.set d x).dynanys c = some y := by
    intro c y hcd hy
    rw [set_dynanys, if_neg hcd, ha.dynanys, hy]
  have hblock : ∀ {c y any q}, h.dynanys c = some y → y.any = some any → any.value = some q →
      q.block < h.next := by
    intro c y any q hy hany hq
    obtain ⟨b, w, -, -, hb, -⟩ := hk.stands c y any q hy hany hq
    exact (hk.allocated _ _ _ hb).1
  have hforest : Forest (h'.set d x) := by
    refine ⟨fun c y hy => ?_, fun c y e hy he => ?_, fun c y hy => ?_, fun e w p hw hwp => ?_⟩
    · rcases hentry hy with ⟨rfl, -⟩ | ⟨-, hy'⟩
      · exact Nat.lt_of_lt_of_le hlt ha.next
      · exact Nat.lt_of_lt_of_le (hk.bound c y hy') ha.next
    · rcases hentry hy with ⟨-, rfl⟩ | ⟨-, hy'⟩
      · rw [hc] at he
        cases he
      · obtain ⟨w, b, hw, hwp, hlt', hb, hr⟩ := hk.listed c y e hy' he
        have hed : e ≠ d := by
          rintro rfl
          rw [hd w hw] at hb
          cases hb
        exact ⟨w, b, hold hed hw, hwp, hlt', hb, hr⟩
    · rcases hentry hy with ⟨-, rfl⟩ | ⟨-, hy'⟩
      · rw [hc]
        exact List.nodup_nil
      · exact hk.nodup c y hy'
    · rcases hentry hw with ⟨-, rfl⟩ | ⟨-, hw'⟩
      · rw [hp] at hwp
        cases hwp
      · obtain ⟨y, hy, hmem⟩ := hk.back e w p hw' hwp
        have hpd : p ≠ d := by
          rintro rfl
          rw [(hk.idle p y hy (hd y hy)).1] at hmem
          cases hmem
        exact ⟨y, hold hpd hy, hmem⟩
  refine ⟨hforest, fun c y hy hnone => ?_, ha.allocated, fun c y any q hy hya hq => ?_,
    fun c y any p' z hy hya hyp hz => ?_, fun c y any hy hya hyp => ?_,
    fun c y any q c' y' any' q' hy hya hyp hq hy' hya' hyp' hq' he => ?_,
    fun c y any n hy hya hn => ?_, fun c y any hy hya hnone => ?_,
    fun c y any hy hya => ?_⟩
  · rcases hentry hy with ⟨-, rfl⟩ | ⟨-, hy'⟩
    · exact ⟨hc, hp⟩
    · exact hk.idle c y hy' hnone
  · rcases hentry hy with ⟨-, rfl⟩ | ⟨-, hy'⟩
    · cases hany.symm.trans hya
      obtain ⟨-, hpath, v, hv⟩ := ha.fresh q hq
      refine ⟨tc, v, v, tc, hv, ?_, ?_, rfl⟩ <;> rw [hpath] <;> rfl
    · obtain ⟨b, w, u, t, hb, hrest⟩ := hk.stands c y any q hy' hya hq
      exact ⟨b, w, u, t, (ha.old _ (hblock hy' hya hq)).trans hb, hrest⟩
  · rcases hentry hy with ⟨-, rfl⟩ | ⟨-, hy'⟩
    · rw [hp] at hyp
      cases hyp
    · obtain ⟨w, hw, hmem⟩ := hk.back c y p' hy' hyp
      rcases hentry hz with ⟨hpd, -⟩ | ⟨-, hz'⟩
      · rw [hpd] at hw
        rw [(hk.idle d w hw (hd w hw)).1] at hmem
        cases hmem
      · obtain ⟨other, v, ho, hv, hg⟩ := hk.child c y any p' z hy' hya hyp hz'
        refine ⟨other, v, ho, hv, ?_⟩
        rw [← hg]
        exact getValue_of_blocks fun q hq => ha.old _ (hblock hz' ho hq)
  · rcases hentry hy with ⟨-, rfl⟩ | ⟨-, hy'⟩
    · cases hany.symm.trans hya
      exact ⟨rfl, fun q hq => (ha.fresh q hq).2.1⟩
    · exact hk.root c y any hy' hya hyp
  · rcases hentry hy with ⟨rfl, rfl⟩ | ⟨-, hy1⟩
    · rcases hentry hy' with ⟨rfl, -⟩ | ⟨-, hy2⟩
      · rfl
      · cases hany.symm.trans hya
        have h1 := (ha.fresh q hq).1
        have h2 := hblock hy2 hya' hq'
        omega
    · rcases hentry hy' with ⟨rfl, rfl⟩ | ⟨-, hy2⟩
      · cases hany.symm.trans hya'
        have h1 := (ha.fresh q' hq').1
        have h2 := hblock hy1 hya hq
        omega
      · exact hk.owner c y any q c' y' any' q' hy1 hya hyp hq hy2 hya' hyp' hq' he
  · rcases hentry hy with ⟨-, rfl⟩ | ⟨-, hy'⟩
    · cases hany.symm.trans hya
      exact hidx n hn
    · exact hk.cursor c y any n hy' hya hn
  · rcases hentry hy with ⟨-, rfl⟩ | ⟨-, hy'⟩
    · cases hany.symm.trans hya
      exact ha.empty hnone
    · exact hk.empty c y any hy' hya hnone
  · rcases hentry hy with ⟨-, rfl⟩ | ⟨-, hy'⟩
    · cases hany.symm.trans hya
      exact hwf
    · exact hk.wellFormed c y any hy' hya

/-- A DynAny for the component of another one. -/
theorem Kept.newChild {h : Heap} (hk : Kept h) {p : Nat} {y : DynAny} {other : CorbaAny}
    {tc : CTypeCode} {v : Addr} (hy : h.dynanys p = some y) (ho : y.any = some other)
    (hs : Stands h tc v) (hwf : tc.wellFormed = true)
    (hg : getValue h other y.idx = .ok (some v)) :
    ∃ h', createChild h (some tc) (some v) p = .ok (.object h.next, h') ∧ Kept h' ∧
      h'.blocks = h.blocks ∧
      h'.dynanys h.next = some ⟨some ⟨tc, some v, false⟩, 0, [], y.idx, some p⟩ ∧
      h'.dynanys p = some { y with children := h.next :: y.children } ∧
      ∀ c, c ≠ h.next → c ≠ p → h'.dynanys c = h.dynanys c := by
  have hpn : p < h.next := hk.bound p y hy
  have hfresh : h.dynanys h.next = none := by
    cases hn : h.dynanys h.next with
    | none => rfl
    | some z => exact absurd (hk.bound h.next z hn) (Nat.lt_irrefl _)
  have hnever : ∀ c z, h.dynanys c = some z → h.next ∉ z.children := by
    intro c z hz hmem
    obtain ⟨w, -, hw, -⟩ := hk.listed c z h.next hz hmem
    rw [hfresh] at hw
    cases hw
  let x : DynAny := ⟨some ⟨tc, some v, false⟩, 0, [], y.idx, some p⟩
  let y' : DynAny := { y with children := h.next :: y.children }
  let h' : Heap := (({ h with next := h.next + 1 } : Heap).set p y').set h.next x
  have hcreate : createChild h (some tc) (some v) p = .ok (.object h.next, h') := by
    simp only [createChild, dynany_ok hy, bind, Except.bind]
    rfl
  have hatn : h'.dynanys h.next = some x := by simp [h']
  have hatp : h'.dynanys p = some y' := by
    have hne : p ≠ h.next := by omega
    simp [h', hne]
  have hsame : ∀ c, c ≠ h.next → c ≠ p → h'.dynanys c = h.dynanys c := by
    intro c hcn hcp
    simp [h', hcn, hcp]
  have hentry : ∀ {c z}, h'.dynanys c = some z → c = h.next ∧ z = x ∨
      ∃ z', h.dynanys c = some z' ∧ z.any = z'.any ∧ z.parent = z'.parent ∧
        z.parentIdx = z'.parentIdx ∧ z.idx = z'.idx ∧ c ≠ h.next ∧
        (z.children = z'.children ∨ c = p ∧ z.children = h.next :: z'.children) := by
    intro c z hz
    by_cases hcn : c = h.next
    · subst c
      cases hatn.symm.trans hz
      exact .inl ⟨rfl, rfl⟩
    · by_cases hcp : c = p
      · subst c
        cases hatp.symm.trans hz
        exact .inr ⟨y, hy, rfl, rfl, rfl, rfl, hcn, .inr ⟨rfl, rfl⟩⟩
      · exact .inr ⟨z, hsame c hcn hcp ▸ hz, rfl, rfl, rfl, rfl, hcn, .inl rfl⟩
  have hold : ∀ {c z}, h.dynanys c = some z → ∃ z', h'.dynanys c = some z' ∧ z'.any = z.any ∧
      z'.parent = z.parent ∧ ∀ e ∈ z.children, e ∈ z'.children := by
    intro c z hz
    by_cases hcp : c = p
    · subst c
      cases hy.symm.trans hz
      exact ⟨y', hatp, rfl, rfl, fun e he => List.mem_cons_of_mem _ he⟩
    · have hcn : c ≠ h.next := by
        rintro rfl
        rw [hfresh] at hz
        cases hz
      exact ⟨z, (hsame c hcn hcp).trans hz, rfl, rfl, fun e he => he⟩
  have hforest : Forest h' := by
    refine ⟨fun c z hz => ?_, fun c z e hz he => ?_, fun c z hz => ?_, fun e w q hw hwq => ?_⟩
    · change c < h.next + 1
      rcases hentry hz with ⟨rfl, -⟩ | ⟨z', hz', -⟩
      · omega
      · have hlt := hk.bound c z' hz'
        omega
    · rcases hentry hz with ⟨-, rfl⟩ | ⟨z', hz', -, -, -, -, -, hch⟩
      · cases he
      · have hmem : e ∈ z'.children ∨ c = p ∧ e = h.next := by
          rcases hch with hch | ⟨hcp, hch⟩
          · exact .inl (hch ▸ he)
          · rw [hch] at he
            rcases List.mem_cons.mp he with rfl | he
            · exact .inr ⟨hcp, rfl⟩
            · exact .inl he
        rcases hmem with hmem | ⟨rfl, rfl⟩
        · obtain ⟨w, b, hw, hwp, hlt, hb, hr⟩ := hk.listed c z' e hz' hmem
          obtain ⟨w', hw', ha, hp, -⟩ := hold hw
          exact ⟨w', b, hw', hp.trans hwp, hlt, ha.trans hb, hr⟩
        · exact ⟨x, _, hatn, rfl, hpn, rfl, rfl⟩
    · rcases hentry hz with ⟨-, rfl⟩ | ⟨z', hz', -, -, -, -, -, hch⟩
      · exact List.nodup_nil
      · rcases hch with hch | ⟨-, hch⟩
        · exact hch ▸ hk.nodup c z' hz'
        · rw [hch]
          exact List.nodup_cons.mpr ⟨hnever c z' hz', hk.nodup c z' hz'⟩
    · rcases hentry hw with ⟨rfl, rfl⟩ | ⟨w', hw', -, hq, -⟩
      · cases hwq
        exact ⟨y', hatp, List.mem_cons_self⟩
      · obtain ⟨z, hz, hmem⟩ := hk.back e w' q hw' (hq ▸ hwq)
        obtain ⟨z', hz', -, -, hsub⟩ := hold hz
        exact ⟨z', hz', hsub e hmem⟩
  have hkept : Kept h' := by
    refine ⟨hforest, fun c z hz hnone => ?_, fun b tc' w hb => ?_, fun c z any q hz hza hq => ?_,
      fun c z any q u hz hza hzq hu => ?_, fun c z any hz hza hzp => ?_,
      fun c z any q c' z' any' q' hz hza hzp hq hz' hza' hzp' hq' he => ?_,
      fun c z any n hz hza hn => ?_, fun c z any hz hza hnone => ?_,
      fun c z any hz hza => ?_⟩
    · rcases hentry hz with ⟨-, rfl⟩ | ⟨z', hz', ha, hp, -, -, -, hch⟩
      · cases hnone
      · obtain ⟨h1, h2⟩ := hk.idle c z' hz' (ha.symm.trans hnone)
        refine ⟨?_, hp.trans h2⟩
        rcases hch with hch | ⟨rfl, -⟩
        · exact hch.trans h1
        · cases hy.symm.trans hz'
          rw [ho] at ha
          cases hnone.symm.trans ha
    · obtain ⟨hlt, ht⟩ := hk.allocated b tc' w hb
      exact ⟨Nat.lt_succ_of_lt hlt, ht⟩
    · rcases hentry hz with ⟨-, rfl⟩ | ⟨z', hz', ha, -⟩
      · cases hza
        cases hq
        exact hs
      · exact hk.stands c z' any q hz' (ha.symm.trans hza) hq
    · rcases hentry hz with ⟨-, rfl⟩ | ⟨z', hz', ha, hp, hpi, -⟩
      · cases hza
        cases hzq
        cases hatp.symm.trans hu
        exact ⟨other, v, ho, rfl, hg⟩
      · obtain ⟨u', hu', -⟩ := hk.back c z' q hz' (hp.symm.trans hzq)
        obtain ⟨o, w, h1, h2, h3⟩ := hk.child c z' any q u' hz' (ha.symm.trans hza)
          (hp.symm.trans hzq) hu'
        obtain ⟨u'', hu'', hua, -⟩ := hold hu'
        cases hu.symm.trans hu''
        exact ⟨o, w, hua.trans h1, h2, hpi ▸ h3⟩
    · rcases hentry hz with ⟨-, rfl⟩ | ⟨z', hz', ha, hp, -⟩
      · cases hzp
      · exact hk.root c z' any hz' (ha.symm.trans hza) (hp.symm.trans hzp)
    · rcases hentry hz with ⟨-, rfl⟩ | ⟨w, hw, ha, hp, -⟩
      · cases hzp
      · rcases hentry hz' with ⟨-, rfl⟩ | ⟨w', hw', ha', hp', -⟩
        · cases hzp'
        · exact hk.owner c w any q c' w' any' q' hw (ha.symm.trans hza) (hp.symm.trans hzp) hq
            hw' (ha'.symm.trans hza') (hp'.symm.trans hzp') hq' he
    · rcases hentry hz with ⟨-, rfl⟩ | ⟨z', hz', ha, -, -, hi, -⟩
      · exact .inl (Int.le_refl 0)
      · rw [hi]
        exact hk.cursor c z' any n hz' (ha.symm.trans hza) hn
    · rcases hentry hz with ⟨-, rfl⟩ | ⟨z', hz', ha, -⟩
      · cases hza
        cases hnone
      · exact hk.empty c z' any hz' (ha.symm.trans hza) hnone
    · rcases hentry hz with ⟨-, rfl⟩ | ⟨z', hz', ha, -⟩
      · cases hza
        exact hwf
      · exact hk.wellFormed c z' any hz' (ha.symm.trans hza)
  exact ⟨h', hcreate, hkept, rfl, hatn, hatp, hsame⟩

end ORBit2.Dynamic
