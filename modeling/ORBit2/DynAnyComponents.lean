import ORBit2.DynAnyCalls

/-! The calls that move cursors, make DynAnys, and read or write single components. -/

set_option autoImplicit false

namespace ORBit2.Dynamic

open Runs Storage Storage.Store

/-- The cursor is at no component or at one there is. -/
def InRange (h : Heap) (x : DynAny) (a : CorbaAny) : Prop :=
  x.idx = -1 ∨ ∃ n, componentCount h a = .ok n ∧ x.idx < n

def Ranged (h : Heap) : Prop :=
  ∀ d x a, h.dynanys d = some x → x.any = some a → InRange h x a

/-- What a call leaves behind when it returns. -/
def Leaves (P : Heap → Prop) : Except Stop (Answer × Heap) → Prop
  | .ok (_, h) => P h
  | .error r => r = .aborted

/-- After the call everything is in its place, and the cursors are if they were and `R` holds. -/
def Good (h : Heap) (R : Prop) (h' : Heap) : Prop := Kept h' ∧ (R → Ranged h → Ranged h')

theorem componentCount_of_blocks {h h' : Heap} {any : CorbaAny}
    (hb : ∀ a, any.value = some a → h'.blocks a.block = h.blocks a.block) :
    componentCount h' any = componentCount h any := by
  have hr : ∀ a, any.value = some a → h'.read a = h.read a := by
    intro a ha
    rw [Heap.read, Heap.read, hb a ha]
  unfold componentCount
  simp only
  split <;> try rfl
  cases ha : any.value with
  | none => rfl
  | some a => simp only [hr a ha]

/-- The DynAnys that are left have their cursors where they had them. -/
theorem Shrunk.ranged {h h' : Heap} (hk : Kept h) (hs : Shrunk h h') (hall : Ranged h) :
    Ranged h' := by
  intro c y b hy hb
  have hcount : componentCount h' b = componentCount h b :=
    componentCount_of_blocks fun v hv => hs.block hk hy hb hv
  obtain ⟨z, hz, hzb, -, -, hi⟩ := hs.entry hy hb
  rw [InRange, hcount, ← hi]
  exact hall c z b hz hzb

/-- The header of the sequence a DynAny stands on. -/
theorem Kept.sequence {h : Heap} (hk : Kept h) {tc : CTypeCode} {v : Addr} (hs : Stands h tc v)
    (hseq : tc.skipAlias.kind = .sequence) :
    ∃ header stamp es, h.read v = .ok (.buffer header stamp es) ∧
      eachHasType tc.skipAlias.element es = true := by
  obtain ⟨u, hu, ht⟩ := hk.read hs
  cases u with
  | leaf =>
    rw [hasType, hseq] at ht
    cases ht
  | record =>
    rw [hasType, hseq] at ht
    cases ht
  | buffer header stamp es =>
    rw [hasType, Bool.and_eq_true] at ht
    exact ⟨header, stamp, es, hu, ht.2⟩

theorem long_lt {i : Int} {n : Nat} (h : long i % 2^32 < n) : long i < n := by
  have hlt : long i < (2^32 + 1) / 2 := Int.bmod_lt (by decide)
  by_cases hi : 0 ≤ long i
  · rwa [Int.emod_eq_of_lt hi (by omega)] at h
  · omega

/-- A cursor that may be set on `a`. -/
def Cursor (h : Heap) (a : CorbaAny) (R : Prop) (idx : Int) : Prop :=
  (∀ n, fixedCount a.type = some n → idx ≤ 0 ∨ idx < n) ∧
    (R → idx = -1 ∨ ∃ n, componentCount h a = .ok n ∧ idx < n)

theorem cursor_none (h : Heap) (a : CorbaAny) (R : Prop) : Cursor h a R (-1) :=
  ⟨fun _ _ => .inl (by decide), fun _ => .inl rfl⟩

theorem seek_ok {h : Heap} (hk : Kept h) {d : Nat} {x : DynAny} {a : CorbaAny}
    (hd : h.dynanys d = some x) (ha : x.any = some a) (index : Int) :
    seek h a index = .error .aborted ∨ ∃ idx found, seek h a index = .ok (idx, found) ∧
      Cursor h a (a.type.skipAlias.kind = .union → long index ≠ 0 ∧ long index ≠ 1) idx := by
  have hwithin : ∀ (n : Nat) (R : Prop), (∀ m, fixedCount a.type = some m → m = n) →
      componentCount h a = .ok n →
      Cursor h a R (if long index < n ∧ 0 ≤ long index then (long index, true) else (-1, false)).1 := by
    intro n R hf hc
    split
    · rename_i hi
      exact ⟨fun m hm => .inr (hf m hm ▸ hi.1), fun _ => .inr ⟨n, hc, hi.1⟩⟩
    · exact cursor_none h a R
  unfold seek
  simp only
  split
  · exact .inr ⟨-1, _, rfl, cursor_none h a _⟩
  · split
    · rename_i hkind
      refine .inr ⟨_, _, rfl, hwithin _ _ (fun m hm => ?_) ?_⟩
      · simpa [fixedCount, hkind] using hm.symm
      · simp only [componentCount, hkind]
    · rename_i hkind
      refine .inr ⟨_, _, rfl, hwithin _ _ (fun m hm => ?_) ?_⟩
      · simpa [fixedCount, hkind] using hm.symm
      · simp only [componentCount, hkind]
    · rename_i hkind
      refine .inr ⟨_, _, rfl, hwithin _ _ (fun m hm => ?_) ?_⟩
      · simpa [fixedCount, hkind] using hm.symm
      · simp only [componentCount, hkind]
    · rename_i hkind
      have hfixed : ∀ n, fixedCount a.type ≠ some n := by
        intro n hn
        simp [fixedCount, hkind] at hn
      cases hv : a.value with
      | none => exact .inr ⟨-1, false, rfl, cursor_none h a _⟩
      | some v =>
        obtain ⟨header, stamp, es, hr, -⟩ := hk.sequence (hk.stands d x a v hd ha hv) hkind
        by_cases hi : long index % 2^32 < es.length
        · refine .inr ⟨long index, true, by simp only [hr, bind, Except.bind, if_pos hi],
            fun n hn => absurd hn (hfixed n), fun _ => .inr ⟨es.length, ?_, long_lt hi⟩⟩
          simp only [componentCount, hkind, hv, hr, bind, Except.bind]
        · exact .inr ⟨-1, false, by simp only [hr, bind, Except.bind, if_neg hi],
            cursor_none h a _⟩
    · rename_i hkind
      by_cases hi : long index < 0 ∨ 1 < long index
      · exact .inr ⟨-1, false, by rw [if_pos hi], cursor_none h a _⟩
      · refine .inr ⟨long index, true, by rw [if_neg hi], ?_⟩
        refine ⟨fun n hn => ?_, fun hR => ?_⟩
        · simp [fixedCount, hkind] at hn
        · obtain ⟨h0, h1⟩ := hR hkind
          omega
    · exact .inl rfl

/-- Moving the cursor of one DynAny. -/
theorem setIdx_good {h : Heap} (hk : Kept h) {d : Nat} {x : DynAny} {a : CorbaAny} {R : Prop}
    (hd : h.dynanys d = some x) (ha : x.any = some a) {idx : Int} (hc : Cursor h a R idx) :
    Good h R (h.set d { x with idx := idx }) := by
  refine ⟨hk.setIdx hd fun b n hb => ?_, fun hR hr c z b hz hb => ?_⟩
  · cases ha.symm.trans hb
    exact hc.1 n
  · rw [set_dynanys] at hz
    split at hz
    · cases hz
      cases ha.symm.trans hb
      exact hc.2 hR
    · exact hr c z b hz hb

theorem seekTo_good {h : Heap} (hk : Kept h) {d : Nat} {x : DynAny} {a : CorbaAny}
    (hd : h.dynanys d = some x) (ha : x.any = some a) (index : Int) :
    Leaves (Good h (a.type.skipAlias.kind = .union → long index ≠ 0 ∧ long index ≠ 1))
      (seekTo h d x a index) := by
  rw [seekTo]
  rcases seek_ok hk hd ha index with he | ⟨idx, found, he, hc⟩
  · rw [he]
    exact rfl
  · rw [he]
    exact setIdx_good hk hd ha hc

/-- The DynAnys of clients that own their values. -/
theorem newRoot_good {h h' : Heap} (hk : Kept h) {d : Nat} {x : DynAny} {tc : CTypeCode}
    {value : Option Addr} {R : Prop} (hlt : d < h.next)
    (hd : ∀ y, h.dynanys d = some y → y.any = none) (ha : Allocated h h' tc value)
    (hwf : tc.wellFormed = true) (hany : x.any = some ⟨tc, value, true⟩) (hc : x.children = []) (hp : x.parent = none)
    (hidx : ∀ n, fixedCount tc = some n → x.idx ≤ 0 ∨ x.idx < n)
    (hR : R → InRange (h'.set d x) x ⟨tc, value, true⟩) : Good h R (h'.set d x) := by
  refine ⟨hk.newRoot hlt hd ha hwf hany hc hp hidx, fun hr hall c z b hz hb => ?_⟩
  rw [set_dynanys] at hz
  split at hz
  · cases hz
    cases hany.symm.trans hb
    exact hR hr
  · rw [ha.dynanys] at hz
    have hcount : componentCount (h'.set d x) b = componentCount h b := by
      refine componentCount_of_blocks fun v hv => ?_
      obtain ⟨t, w, -, -, hw, -⟩ := hk.stands c z b v hz hb hv
      exact ha.old _ (hk.allocated _ _ _ hw).1
    rcases hall c z b hz hb with hi | ⟨n, hn, hi⟩
    · exact .inl hi
    · exact .inr ⟨n, hcount.trans hn, hi⟩

theorem gatherAllocInfo_sequence : (tc : CTypeCode) → tc.skipAlias.kind = .sequence →
    tc.gatherAllocInfo ≠ 0
  | .node info [] discriminator, h => by
    have hs : info.kind = .sequence := by
      unfold CTypeCode.skipAlias at h
      split at h
      · contradiction
      · exact h
    rw [CTypeCode.gatherAllocInfo, hs]
    exact Nat.succ_ne_zero 23
  | .node info (sub :: subtypes) discriminator, h => by
    by_cases ha : info.kind = .alias
    · have hs : CTypeCode.skipAlias (.node info (sub :: subtypes) discriminator) =
          sub.skipAlias := by
        rw [CTypeCode.skipAlias]
        exact ha
      rw [hs] at h
      rw [CTypeCode.gatherAllocInfo, ha]
      exact gatherAllocInfo_sequence sub h
    · rw [CTypeCode.skipAlias_of_ne
        (show CTypeCode.kind (.node info (sub :: subtypes) discriminator) ≠ .alias from ha)] at h
      rw [CTypeCode.gatherAllocInfo, show info.kind = .sequence from h]
      exact Nat.succ_ne_zero 23

/-- Of the value only the length of a sequence counts. -/
theorem componentCount_congr {h h' : Heap} {any any' : CorbaAny} (ht : any'.type = any.type)
    (hs : any.type.skipAlias.kind = .sequence → ∃ a a' header stamp es header' stamp' es',
      any.value = some a ∧ any'.value = some a' ∧ h.read a = .ok (.buffer header stamp es) ∧
      h'.read a' = .ok (.buffer header' stamp' es') ∧ es'.length = es.length) :
    componentCount h' any' = componentCount h any := by
  unfold componentCount
  simp only [ht]
  split <;> try rfl
  rename_i hkind
  obtain ⟨a, a', header, stamp, es, header', stamp', es', ha, ha', hr, hr', hl⟩ := hs hkind
  simp only [ha, ha', hr, hr', bind, Except.bind, hl]

/-- The count of a value that has components. -/
theorem componentCount_of_hasType {h : Heap} {any : CorbaAny} {u : Stored}
    (ht : hasType any.type u = true) (hpos : 0 < count u)
    (hs : any.type.skipAlias.kind = .sequence → ∃ a header stamp es, any.value = some a ∧
      h.read a = .ok (.buffer header stamp es) ∧ es.length = count u) :
    componentCount h any = .ok (count u) := by
  cases u with
  | leaf => cases hpos
  | record ms =>
    rw [hasType] at ht
    unfold componentCount
    cases hk : any.type.skipAlias.kind <;> rw [hk] at ht <;> try cases ht
    case struct | except =>
      simp only [hk, count, ((haveTypes_iff _ _).mp ht).1]
    case array =>
      rw [Bool.and_eq_true, beq_iff_eq] at ht
      simp only [hk, count, ht.1]
  | buffer header stamp es =>
    rw [hasType, Bool.and_eq_true, beq_iff_eq] at ht
    obtain ⟨a, header', stamp', es', ha, hr, hl⟩ := hs ht.1
    simp only [componentCount, ht.1, ha, hr, bind, Except.bind, hl]

theorem allocate_read (h : Heap) {tc : CTypeCode} (v : Stored) (hz : tc.gatherAllocInfo ≠ 0) :
    ∃ a, (h.allocate tc v).1 = some a ∧ (h.allocate tc v).2.read a = .ok v := by
  rw [Heap.allocate, if_neg hz]
  exact ⟨_, rfl, read_ok.mpr ⟨tc, v, Function.update_self _ _ _, rfl⟩⟩

/-- What a copy leaves in memory. -/
theorem copyValue_read {h h' : Heap} {tc : CTypeCode} {u : Stored} {value : Option Addr}
    (hc : h.copyValue tc (some u) = .ok (value, h')) (hz : tc.gatherAllocInfo ≠ 0) :
    ∃ a w n, value = some a ∧ h'.read a = .ok w ∧ copyValueCore tc h.next u = .ok (w, n) := by
  rw [Heap.copyValue] at hc
  cases hu : copyValueCore tc h.next u with
  | error => simp [hu, bind, Except.bind] at hc
  | ok r =>
    obtain ⟨w, n⟩ := r
    simp only [hu, bind, Except.bind, Except.ok.injEq] at hc
    obtain ⟨a, ha, hr⟩ := allocate_read { h with next := n } w hz
    rw [hc] at ha hr
    exact ⟨a, w, n, ha, hr, rfl⟩

theorem copyValue_error {h : Heap} {tc : CTypeCode} {u : Stored} {r : Stop}
    (ht : hasType tc u = true) (hc : h.copyValue tc (some u) = .error r) : r = .aborted := by
  rw [Heap.copyValue] at hc
  cases hu : copyValueCore tc h.next u with
  | error =>
    simp only [hu, bind, Except.bind, Except.error.injEq] at hc
    exact copyValueCore_error u (hc ▸ hu) ht
  | ok => simp [hu, bind, Except.bind] at hc

/-- The copy of a sequence is a sequence of the same length. -/
theorem copyValueCore_buffer {tc : CTypeCode} {n n' : Nat} {header stamp : Nat} {es : List Stored}
    {w : Stored} (h : copyValueCore tc n (.buffer header stamp es) = .ok (w, n')) :
    ∃ header' stamp' es', w = .buffer header' stamp' es' ∧ es'.length = es.length := by
  rw [copyValueCore] at h
  cases hk : tc.skipAlias.kind <;> rw [hk] at h <;> try cases h
  cases hc : copyEach tc.skipAlias.element (n + 1) es with
  | error => simp [hc, bind, Except.bind] at h
  | ok c =>
    obtain ⟨es', k⟩ := c
    simp only [hc, bind, Except.bind, Except.ok.injEq, Prod.mk.injEq] at h
    exact ⟨_, _, es', h.1.symm, (copyEach_get hc).1⟩

/-- A copied sequence is where it is looked for. -/
theorem copied_sequence {h h' : Heap} {tc : CTypeCode} {u : Stored} {value : Option Addr}
    (ht : hasType tc u = true) (hc : h.copyValue tc (some u) = .ok (value, h'))
    (hseq : tc.skipAlias.kind = .sequence) :
    ∃ a header stamp es, value = some a ∧ h'.read a = .ok (.buffer header stamp es) ∧
      es.length = count u := by
  obtain ⟨a, w, n, ha, hr, hcopy⟩ := copyValue_read hc (gatherAllocInfo_sequence tc hseq)
  cases u with
  | leaf =>
    rw [hasType, hseq] at ht
    cases ht
  | record =>
    rw [hasType, hseq] at ht
    cases ht
  | buffer header stamp es =>
    obtain ⟨header', stamp', es', rfl, hl⟩ := copyValueCore_buffer hcopy
    exact ⟨a, header', stamp', es', ha, hr, hl⟩

/-- A sequence of `n` elements is where the any points to, if it is of such a type. -/
def Holding (h : Heap) (tc : CTypeCode) (value : Option Addr) (n : Nat) : Prop :=
  tc.skipAlias.kind = .sequence → ∃ a header stamp es, value = some a ∧
    h.read a = .ok (.buffer header stamp es) ∧ es.length = n

theorem createRoot_good {h : Heap} (hk : Kept h) {tc : CTypeCode} {value : Option Stored}
    (hwf : tc.wellFormed = true) (ht : ∀ v, value = some v → hasType tc v = true) {R : Prop}
    (hR : R → ∀ h' value', Holding h' tc value' (count (value.getD (initDefault tc))) →
      ∃ n, componentCount h' ⟨tc, value', true⟩ = .ok n ∧ 0 < n) :
    Leaves (Good h R) (createRoot h tc value) := by
  have hk₁ := hk.bump (Nat.le_succ h.next)
  have hnone : ∀ y, h.dynanys h.next = some y → y.any = none := by
    intro y hy
    exact absurd (hk.bound _ y hy) (Nat.lt_irrefl _)
  have hgood : ∀ {h' : Heap} {value' : Option Addr},
      Allocated { h with next := h.next + 1 } h' tc value' →
      Holding h' tc value' (count (value.getD (initDefault tc))) →
      Good h R (h'.set h.next ⟨some ⟨tc, value', true⟩, 0, [], 0, none⟩) := by
    intro h' value' ha hhold
    have hidx : R → InRange (h'.set h.next ⟨some ⟨tc, value', true⟩, 0, [], 0, none⟩)
        ⟨some ⟨tc, value', true⟩, 0, [], 0, none⟩ ⟨tc, value', true⟩ := by
      intro hr
      obtain ⟨n, hn, hpos⟩ := hR hr h' value' hhold
      exact .inr ⟨n, hn, Int.natCast_pos.mpr hpos⟩
    exact newRoot_good hk₁ (Nat.lt_succ_self h.next) hnone ha hwf rfl rfl rfl
      (fun _ _ => .inl (Int.le_refl 0)) hidx
  unfold createRoot
  cases value with
  | none =>
    have hty := hasType_initDefault tc hwf
    refine hgood (allocated_allocate hk₁ fun _ => hty) fun hseq => ?_
    obtain ⟨a, ha, hr⟩ := allocate_read { h with next := h.next + 1 } (initDefault tc)
      (gatherAllocInfo_sequence tc hseq)
    cases hu : initDefault tc with
    | leaf =>
      rw [hu, hasType, hseq] at hty
      cases hty
    | record =>
      rw [hu, hasType, hseq] at hty
      cases hty
    | buffer header stamp es =>
      rw [hu] at hr ha
      exact ⟨a, header, stamp, es, ha, hr, rfl⟩
  | some v =>
    cases hc : Heap.copyValue { h with next := h.next + 1 } tc (some v) with
    | error r =>
      simp only [hc, bind, Except.bind]
      exact copyValue_error (ht v rfl) hc
    | ok r =>
      obtain ⟨value', h'⟩ := r
      simp only [hc, bind, Except.bind]
      refine hgood (copyValue_ok hk₁ (fun u hu => ht u hu) (fun hn => by cases hn) hc) fun hseq => ?_
      exact copied_sequence (ht v rfl) hc hseq

/-- A component of what stands there. -/
theorem Stands.part {h : Heap} {tc t : CTypeCode} {w : Addr} {u u' : Stored} {p : Part}
    (hs : Stands h tc w) (hr : h.read w = .ok u) (hu : u.part p = some u')
    (ht : partType tc p = some t) : Stands h t (w.part p) := by
  obtain ⟨b, v, u₀, t₀, hb, hv, hty, he⟩ := hs
  obtain ⟨b', v', hb', hv'⟩ := read_ok.mp hr
  cases hb.symm.trans hb'
  cases hv.symm.trans hv'
  refine ⟨b, v, u', t, hb, ?_, ?_, rfl⟩
  · rw [Addr.part, follow_append, hv]
    simp only [Option.bind_some, follow_cons, hu, follow_nil]
  · rw [Addr.part, typeAt_append, hty]
    simp only [Option.bind_some, typeAt_cons, partType_congr he, ht, typeAt_nil]

/-- There is a component where the code that computes its address takes for granted that there is
one. -/
def HasRoom (a : CorbaAny) : Prop :=
  (a.type.skipAlias.kind = .struct → a.type.skipAlias.subtypes ≠ []) ∧
    (a.type.skipAlias.kind = .array → a.value ≠ none → a.type.skipAlias.info.length ≠ 0)

instance (a : CorbaAny) : Decidable (HasRoom a) := inferInstanceAs (Decidable (_ ∧ _))

theorem component_stands {h : Heap} (hk : Kept h) {d : Nat} {x : DynAny} {a : CorbaAny}
    (hd : h.dynanys d = some x) (ha : x.any = some a) (hroom : 0 ≤ x.idx → HasRoom a) {v : Addr}
    {tc : CTypeCode} (hg : getValue h a x.idx = .ok (some v)) (hc : getCurType a x.idx = some tc) :
    Stands h tc v := by
  obtain ⟨w, hw, hcomp⟩ := getValue_some hg
  have hs := hk.stands d x a w hd ha hw
  cases hcomp with
  | self hsingle =>
    have htc : tc = a.type.skipAlias := by
      unfold getCurType at hc
      simp only at hc
      cases hkind : a.type.skipAlias.kind <;> rw [hkind] at hsingle hc <;>
        first | exact (Option.some.inj hc).symm | cases hsingle
    obtain ⟨b, v', u, t, hb, hv', hty, he⟩ := hs
    exact ⟨b, v', u, t, hb, hv', hty, by rw [htc, skipAlias_skipAlias]; exact he⟩
  | array hkind hi =>
    obtain ⟨u, hu, ht⟩ := hk.read hs
    have hlt : x.idx.toNat < a.type.skipAlias.info.length := by
      have hn := hk.cursor d x a a.type.skipAlias.info.length hd ha (by simp [fixedCount, hkind])
      have h0 := (hroom hi).2 hkind (by rw [hw]; exact Option.some_ne_none w)
      omega
    cases u with
    | leaf =>
      rw [hasType, hkind] at ht
      cases ht
    | buffer =>
      rw [hasType, hkind] at ht
      cases ht
    | record ms =>
      rw [hasType, hkind, Bool.and_eq_true, beq_iff_eq] at ht
      refine hs.part hu (List.getElem?_eq_getElem (ht.1 ▸ hlt)) ?_
      unfold getCurType at hc
      simp only at hc
      rw [hkind] at hc
      rw [partType, hkind]
      exact hc
  | member hkind hi hl =>
    obtain ⟨u, hu, ht⟩ := hk.read hs
    have hc' : a.type.skipAlias.subtypes[x.idx.toNat]? = some tc := by
      unfold getCurType at hc
      simp only at hc
      rcases hkind with hkind | hkind <;> rw [hkind] at hc <;> simpa [hi] using hc
    have hp : partType a.type (.member x.idx.toNat) = some tc := by
      unfold partType
      rcases hkind with hkind | hkind <;> rw [hkind] <;> exact hc'
    cases u with
    | leaf => rcases hkind with hkind | hkind <;> rw [hasType, hkind] at ht <;> cases ht
    | buffer => rcases hkind with hkind | hkind <;> rw [hasType, hkind] at ht <;> cases ht
    | record ms =>
      have hlen : ms.length = a.type.skipAlias.subtypes.length := by
        rcases hkind with hkind | hkind <;> rw [hasType, hkind] at ht <;>
          exact ((haveTypes_iff _ _).mp ht).1
      exact hs.part hu (List.getElem?_eq_getElem (hlen ▸ hl)) hp
  | @element hkind hi header stamp es hr hl =>
    have hu : (Store.buffer header stamp es : Stored).part (.element stamp x.idx.toNat) =
        some es[x.idx.toNat] := by
      rw [Store.part, if_pos rfl]
      exact List.getElem?_eq_getElem hl
    refine hs.part hr hu ?_
    · unfold getCurType at hc
      simp only at hc
      rw [hkind] at hc
      rw [partType, hkind]
      exact hc

theorem element_wellFormed {tc : CTypeCode} (h : tc.wellFormed = true) :
    tc.element.wellFormed = true := by
  cases hs : tc.subtypes with
  | nil => simp only [CTypeCode.element, hs]; rfl
  | cons sub subtypes =>
    simp only [CTypeCode.element, hs, List.headD_cons]
    exact CTypeCode.wellFormed_subtype h (hs ▸ List.mem_cons_self)

theorem curType_wellFormed {a : CorbaAny} {idx : Int} {tc : CTypeCode}
    (h : a.type.wellFormed = true) (hc : getCurType a idx = some tc) : tc.wellFormed = true := by
  have hs := CTypeCode.wellFormed_skipAlias a.type h
  unfold getCurType at hc
  simp only at hc
  split at hc
  · cases hc
    exact element_wellFormed hs
  · cases hc
    exact element_wellFormed hs
  · split at hc
    · exact CTypeCode.wellFormed_subtype hs (List.mem_of_getElem? hc)
    · cases hc
  · split at hc
    · exact CTypeCode.wellFormed_subtype hs (List.mem_of_getElem? hc)
    · cases hc
  · split at hc
    · exact CTypeCode.wellFormed_discriminator hs hc
    · cases hc
  · split at hc
    · cases hc
      exact hs
    · cases hc

/-- `dynany_get_value` uses nothing that is freed. -/
theorem getValue_ok {h : Heap} (hk : Kept h) {d : Nat} {x : DynAny} {a : CorbaAny}
    (hd : h.dynanys d = some x) (ha : x.any = some a)
    (hroom : 0 ≤ x.idx → a.type.skipAlias.kind = .struct ∨ a.type.skipAlias.kind = .except →
      a.type.skipAlias.subtypes ≠ []) : ∃ v, getValue h a x.idx = .ok v := by
  have hmember : 0 ≤ x.idx → a.type.skipAlias.kind = .struct ∨ a.type.skipAlias.kind = .except →
      x.idx.toNat < a.type.skipAlias.subtypes.length := by
    intro hi hkind
    have hne := List.length_pos_iff.mpr (hroom hi hkind)
    have hn := hk.cursor d x a a.type.skipAlias.subtypes.length hd ha
      (by rcases hkind with hkind | hkind <;> simp [fixedCount, hkind])
    omega
  unfold getValue
  simp only
  split
  · exact ⟨_, rfl⟩
  · split
    · exact ⟨_, rfl⟩
    · rename_i hidx
      have hi : 0 ≤ x.idx := by omega
      split
      · rename_i hkind
        cases hv : a.value with
        | none => exact ⟨_, rfl⟩
        | some v =>
          obtain ⟨header, stamp, es, hr, -⟩ := hk.sequence (hk.stands d x a v hd ha hv) hkind
          exact ⟨_, by simp only [hr, bind, Except.bind]; rfl⟩
      · exact ⟨_, rfl⟩
      · rename_i hkind
        rw [if_pos (hmember hi (.inl hkind))]
        exact ⟨_, rfl⟩
      · rename_i hkind
        rw [if_pos (hmember hi (.inr hkind))]
        exact ⟨_, rfl⟩
      · exact ⟨_, rfl⟩

/-- The DynAnys of components. -/
theorem newChild_good {h : Heap} (hk : Kept h) {p : Nat} {y : DynAny} {other : CorbaAny}
    {tc : CTypeCode} {v : Addr} {R : Prop} (hy : h.dynanys p = some y) (ho : y.any = some other)
    (hs : Stands h tc v) (hwf : tc.wellFormed = true)
    (hg : getValue h other y.idx = .ok (some v))
    (hR : R → ∃ n, componentCount h ⟨tc, some v, false⟩ = .ok n ∧ 0 < n) :
    Leaves (Good h R) (createChild h (some tc) (some v) p) := by
  obtain ⟨h', hc, hk', hb, hatn, hatp, hrest⟩ := hk.newChild hy ho hs hwf hg
  rw [hc]
  refine ⟨hk', fun hr hall c z a hz ha => ?_⟩
  have hcount : ∀ b, componentCount h' b = componentCount h b :=
    fun b => componentCount_of_blocks fun _ _ => by rw [hb]
  rw [InRange, hcount]
  by_cases hcn : c = h.next
  · subst c
    cases hatn.symm.trans hz
    cases ha
    obtain ⟨n, hn, hpos⟩ := hR hr
    exact .inr ⟨n, hn, Int.natCast_pos.mpr hpos⟩
  · by_cases hcp : c = p
    · subst c
      cases hatp.symm.trans hz
      exact hall p y a hy ha
    · exact hall c z a (hrest c hcn hcp ▸ hz) ha

theorem good_same {h : Heap} (hk : Kept h) (R : Prop) : Good h R h := ⟨hk, fun _ hr => hr⟩

/-- `DynamicAny_DynAny_current_component`. -/
theorem currentComponent_good {h : Heap} (hk : Kept h) {d : Nat} {x : DynAny} {a : CorbaAny}
    (hd : h.dynanys d = some x) (ha : x.any = some a) (hroom : 0 ≤ x.idx → HasRoom a) {R : Prop}
    (hR : R → ∀ tc v, getCurType a x.idx = some tc → getValue h a x.idx = .ok (some v) →
      ∃ n, componentCount h ⟨tc, some v, false⟩ = .ok n ∧ 0 < n) :
    Leaves (Good h R) (currentComponent h d x a) := by
  unfold currentComponent
  simp only
  split
  · exact good_same hk R
  · split
    · exact good_same hk R
    · rename_i hidx hexcept
      split
      · have hi : 0 ≤ x.idx := by omega
        have hparts : 0 ≤ x.idx →
            a.type.skipAlias.kind = .struct ∨ a.type.skipAlias.kind = .except →
            a.type.skipAlias.subtypes ≠ [] := by
          intro _ hkind hnil
          rcases hkind with hkind | hkind
          · exact (hroom hi).1 hkind hnil
          · exact hexcept (.inr ⟨hkind, hnil⟩)
        obtain ⟨value, hvalue⟩ := getValue_ok hk hd ha hparts
        simp only [hvalue, bind, Except.bind]
        cases htype : getCurType a x.idx with
        | none => exact good_same hk R
        | some tc =>
          cases value with
          | none =>
            simp only [createChild, dynany_ok hd, bind, Except.bind]
            exact rfl
          | some v =>
            exact newChild_good hk hd ha (component_stands hk hd ha hroom hvalue htype)
              (curType_wellFormed (hk.wellFormed d x a hd ha) htype) hvalue fun hr => hR hr tc v htype hvalue
      · exact rfl

/-- `dynany_type_mismatch`, and the place it leads to when there is none. -/
theorem typeMismatch_cases (a : CorbaAny) (idx : Int) (tc : CTypeCode) :
    typeMismatch a idx tc = .error .aborted ∨ typeMismatch a idx tc = .ok true ∨
      typeMismatch a idx tc = .ok false ∧ ∃ t, getCurType a idx = some t ∧
        t.equal tc = some true := by
  unfold typeMismatch
  cases getCurType a idx with
  | none => exact .inr (.inl rfl)
  | some t =>
    cases he : t.equal tc with
    | none => exact .inl (by simp only [he])
    | some b =>
      cases b with
      | false => exact .inr (.inl (by simp only [he]; rfl))
      | true => exact .inr (.inr ⟨by simp only [he]; rfl, t, rfl, he⟩)

/-- A type a single call can name has values without components. -/
theorem leaf_of_basic {tc : CTypeCode} {b : Basic} (he : tc.equal b.tc = some true) {u : Stored}
    (ht : hasType tc u = true) : ∃ content, u = .leaf content := by
  rw [hasType_of_equal u he] at ht
  cases u with
  | leaf content => exact ⟨content, rfl⟩
  | record ms => cases b <;> cases ht
  | buffer => cases b <;> cases ht

/-- Where the component of a value has a type that a call can name, the value is no struct without
members. -/
theorem parts_of_curType {a : CorbaAny} {idx : Int} {tc : CTypeCode}
    (hc : getCurType a idx = some tc) :
    a.type.skipAlias.kind = .struct ∨ a.type.skipAlias.kind = .except →
      a.type.skipAlias.subtypes ≠ [] := by
  intro hkind hnil
  unfold getCurType at hc
  simp only at hc
  rcases hkind with hkind | hkind <;> rw [hkind] at hc <;> simp [hnil] at hc

/-- A value is replaced: the cursors of those who stand below may count on what is there now. -/
theorem ranged_write {h h' : Heap} (hk : Kept h) {a : Addr} {u w : Stored}
    (hw : Written h h' a u w)
    (hcount : ∀ c y b r z, h.dynanys c = some y → y.any = some b →
      b.value = some ⟨a.block, a.path ++ r⟩ → u.follow r = some z →
      b.type.skipAlias.kind = .sequence → InRange h y b →
      ∃ header stamp es, w.follow r = some (.buffer header stamp es) ∧
        (y.idx = -1 ∨ y.idx < es.length)) (hall : Ranged h) : Ranged h' := by
  intro c y b hy hb
  rw [hw.dynanys] at hy
  have hr := hall c y b hy hb
  by_cases hseq : b.type.skipAlias.kind = .sequence
  · cases hv : b.value with
    | none =>
      rcases hr with hi | ⟨n, hn, hi⟩
      · exact .inl hi
      · refine .inr ⟨n, ?_, hi⟩
        simp only [componentCount, hseq, hv] at hn ⊢
        exact hn
    | some q =>
      obtain ⟨header, stamp, es, hq, -⟩ := hk.sequence (hk.stands c y b q hy hb hv) hseq
      have hn : ∀ {g : Heap} {header' stamp' : Nat} {es' : List Stored},
          g.read q = .ok (.buffer header' stamp' es') → componentCount g b = .ok es'.length := by
        intro g header' stamp' es' hg
        simp only [componentCount, hseq, hv, hg, bind, Except.bind]
      rcases hw.place hq with ⟨r, hqr, hz⟩ | ⟨z', hz', hsh⟩
      · obtain ⟨header', stamp', es', hz', hi⟩ := hcount c y b r _ hy hb (hqr ▸ hv) hz hseq hr
        have hg := hw.read_self r hz'
        rw [← hqr] at hg
        rcases hi with hi | hi
        · exact .inl hi
        · exact .inr ⟨es'.length, hn hg, hi⟩
      · cases z' with
        | leaf => cases hsh
        | record => cases hsh
        | buffer header' stamp' es' =>
          simp only [shape, Option.some.injEq, Prod.mk.injEq] at hsh
          rcases hr with hi | ⟨n, hcn, hi⟩
          · exact .inl hi
          · cases (hn hq).symm.trans hcn
            exact .inr ⟨es'.length, hn hz', by rw [hsh.2]; exact hi⟩
  · rcases hr with hi | ⟨n, hn, hi⟩
    · exact .inl hi
    · exact .inr ⟨n, (componentCount_congr rfl fun hs => absurd hs hseq).trans hn, hi⟩

/-- The leaves that the `insert` functions write. -/
theorem write_leaf_good {h : Heap} (hk : Kept h) {v : Addr} {tc : CTypeCode} {b : Basic}
    (hs : Stands h tc v) (he : tc.equal b.tc = some true) (content : List UInt8) (R : Prop) :
    ∃ h', h.write v (.leaf content) = .ok h' ∧ Good h R h' := by
  obtain ⟨u, hu, ht⟩ := hk.read hs
  obtain ⟨old, rfl⟩ := leaf_of_basic he ht
  obtain ⟨h', hwrite, hw⟩ := write_ok hu (.leaf content)
  have hty : hasType tc (.leaf content) = true := ht
  have hnil : ∀ r (z : Stored), (Store.leaf old : Stored).follow r = some z → r = [] ∧ z = .leaf old := by
    intro r z hr
    cases r with
    | nil =>
      cases hr
      exact ⟨rfl, rfl⟩
    | cons p r => cases p <;> cases hr
  refine ⟨h', hwrite, hk.write hs hty (fun c y b r z _ _ _ hr => ?_) hw, fun _ hall => ?_⟩
  · obtain ⟨rfl, rfl⟩ := hnil r z hr
    exact ⟨_, rfl, .inl rfl⟩
  · refine ranged_write hk hw (fun c y b r z hy hb hv hr hseq _ => ?_) hall
    obtain ⟨rfl, rfl⟩ := hnil r z hr
    obtain ⟨header, stamp, es, hread, -⟩ := hk.sequence (hk.stands c y b _ hy hb hv) hseq
    rw [List.append_nil] at hread
    cases hu.symm.trans hread

/-- Where `insert` and `get` find no empty array, and no any. -/
def Reaches (x : DynAny) (a : CorbaAny) (b : Basic) : Prop :=
  (0 ≤ x.idx → a.type.skipAlias.kind = .array → a.value ≠ none →
    a.type.skipAlias.info.length ≠ 0) ∧
    (b = .any → typeMismatch a x.idx b.tc ≠ .ok false)

instance (x : DynAny) (a : CorbaAny) (b : Basic) : Decidable (Reaches x a b) :=
  inferInstanceAs (Decidable (_ ∧ _))

theorem place_of_basic {h : Heap} (hk : Kept h) {d : Nat} {x : DynAny} {a : CorbaAny} {b : Basic}
    {tc : CTypeCode} (hd : h.dynanys d = some x) (ha : x.any = some a) (hr : Reaches x a b)
    (htc : getCurType a x.idx = some tc) :
    ∃ value, getValue h a x.idx = .ok value ∧ ∀ v, value = some v → Stands h tc v := by
  have hparts := parts_of_curType htc
  obtain ⟨value, hv⟩ := getValue_ok hk hd ha fun _ => hparts
  refine ⟨value, hv, fun v hval => ?_⟩
  rw [hval] at hv
  exact component_stands hk hd ha
    (fun hi => ⟨fun hkind => hparts (.inl hkind), fun hkind => hr.1 hi hkind⟩) hv htc

theorem insert_good {h : Heap} (hk : Kept h) {d : Nat} {x : DynAny} {a : CorbaAny} {b : Basic}
    (hd : h.dynanys d = some x) (ha : x.any = some a) (hr : Reaches x a b)
    (content : List UInt8) (R : Prop) : Leaves (Good h R) (insert h x a b content) := by
  rw [insert]
  rcases typeMismatch_cases a x.idx b.tc with he | he | ⟨he, tc, htc, heq⟩
  · simp only [he, bind, Except.bind]
    exact rfl
  · simp only [he, bind, Except.bind, if_true]
    exact good_same hk R
  · obtain ⟨value, hv, hs⟩ := place_of_basic hk hd ha hr htc
    simp only [he, hv, bind, Except.bind, Bool.false_eq_true, if_false]
    cases value with
    | none => exact good_same hk R
    | some v =>
      have hb : b ≠ .any := fun hb => hr.2 hb he
      obtain ⟨h', hwrite, hgood⟩ := write_leaf_good hk (hs v rfl) heq content R
      simp only [if_neg hb, hwrite]
      exact hgood

theorem get_good {h : Heap} (hk : Kept h) {d : Nat} {x : DynAny} {a : CorbaAny} {b : Basic}
    (hd : h.dynanys d = some x) (ha : x.any = some a) (hr : Reaches x a b) (R : Prop) :
    Leaves (Good h R) (get h x a b) := by
  rw [get]
  rcases typeMismatch_cases a x.idx b.tc with he | he | ⟨he, tc, htc, heq⟩
  · simp only [he, bind, Except.bind]
    exact rfl
  · simp only [he, bind, Except.bind, if_true]
    exact good_same hk R
  · obtain ⟨value, hv, hs⟩ := place_of_basic hk hd ha hr htc
    simp only [he, hv, bind, Except.bind, Bool.false_eq_true, if_false]
    cases value with
    | none => exact good_same hk R
    | some v =>
      have hb : b ≠ .any := fun hb => hr.2 hb he
      obtain ⟨u, hu, ht⟩ := hk.read (hs v rfl)
      obtain ⟨content, rfl⟩ := leaf_of_basic heq ht
      simp only [if_neg hb, hu]
      exact good_same hk R

end ORBit2.Dynamic
