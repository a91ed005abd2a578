import ORBit2.DynAnyComponents

/-! The calls that write the elements of a sequence or the members of a struct. -/

set_option autoImplicit false

namespace ORBit2.Dynamic

open Runs Storage Storage.Store

/-- A DynAny with an any stands in the buffer `stamp` of the sequence at `v`. -/
def InBuffer (h : Heap) (v : Addr) (stamp : Nat) : Prop :=
  ∃ c y b i r, h.dynanys c = some y ∧ y.any = some b ∧
    b.value = some ⟨v.block, v.path ++ .element stamp i :: r⟩

/-- `DynamicAny_DynSequence_set_length` comes to a longer buffer, of the right elements, and nobody
stands in the old one. -/
def Resizes (h : Heap) (a : CorbaAny) (length : Nat) : Prop :=
  ∀ v maximum stamp es, a.type.skipAlias.kind = .sequence → a.value = some v →
    h.read v = .ok (.buffer maximum stamp es) → length ≠ es.length →
    (maximum = 0 ∨ length ≤ maximum) → length ≠ 0 → a.type.element.gatherAllocInfo ≠ 0 →
    a.type.kind ≠ .alias ∧ es.length < length ∧ ¬ InBuffer h v stamp

/-- A list of elements whose last part is new. -/
theorem eachHasType_grown {tc : CTypeCode} {es : List Stored} (n : Nat)
    (hes : eachHasType tc es = true) (hd : hasType tc (initDefault tc) = true) :
    eachHasType tc (es ++ List.replicate n (initDefault tc)) = true := by
  rw [eachHasType_append, hes, Bool.true_and, eachHasType_iff]
  intro m hm
  rw [(List.mem_replicate.mp hm).2]
  exact hd

theorem Good.trans {h h' h'' : Heap} {R : Prop} (h₁ : Good h R h') (h₂ : Good h' R h'') :
    Good h R h'' :=
  ⟨h₂.1, fun hr hall => h₂.2 hr (h₁.2 hr hall)⟩

/-- The children of a sequence stand in its buffer. -/
theorem inBuffer_of_child {h : Heap} (hk : Kept h) {c e : Nat} {y : DynAny} {b : CorbaAny}
    {v : Addr} {maximum stamp : Nat} {es : List Stored} (hy : h.dynanys c = some y)
    (hb : y.any = some b) (hv : b.value = some v) (hseq : b.type.skipAlias.kind = .sequence)
    (hr : h.read v = .ok (.buffer maximum stamp es)) (he : e ∈ y.children) :
    ∃ z any i, h.dynanys e = some z ∧ z.parent = some c ∧ z.any = some any ∧
      any.value = some (v.part (.element stamp i)) := by
  obtain ⟨z, any, hz, hzp, -, hany, -⟩ := hk.listed c y e hy he
  obtain ⟨other, w, ho, hw, hg⟩ := hk.child e z any c y hz hany hzp hy
  cases hb.symm.trans ho
  obtain ⟨v', hv', hcomp⟩ := getValue_some hg
  cases hv.symm.trans hv'
  cases hcomp with
  | self hsingle =>
    rw [hseq] at hsingle
    cases hsingle
  | array hkind =>
    rw [hseq] at hkind
    cases hkind
  | member hkind =>
    rw [hseq] at hkind
    rcases hkind with hkind | hkind <;> cases hkind
  | element _ _ hr' _ =>
    cases hr.symm.trans hr'
    exact ⟨z, any, _, hz, hzp, hany, hw⟩

/-- A way into a buffer begins with one of its elements. -/
theorem follow_buffer {maximum stamp : Nat} {es : List Stored} {r : List Part} {z : Stored}
    (h : (Store.buffer maximum stamp es : Stored).follow r = some z) :
    r = [] ∧ z = .buffer maximum stamp es ∨ ∃ i r', r = .element stamp i :: r' ∧
      ∃ m, es[i]? = some m ∧ m.follow r' = some z := by
  cases r with
  | nil =>
    cases h
    exact .inl ⟨rfl, rfl⟩
  | cons p r =>
    cases p with
    | member => cases h
    | element s i =>
      rw [follow_cons, Store.part] at h
      by_cases hs : s = stamp
      · rw [if_pos hs] at h
        cases hi : es[i]? with
        | none =>
          rw [hi] at h
          cases h
        | some m =>
          rw [hi] at h
          exact .inr ⟨i, r, by rw [hs], m, hi, h⟩
      · rw [if_neg hs] at h
        cases h

/-- `dynany_sequence_realloc_to`, where it does not write over the end of the new buffer. -/
theorem sequenceReallocTo_good {h : Heap} (hk : Kept h) {tc : CTypeCode} {v : Addr}
    {maximum stamp : Nat} {es : List Stored} (hs : Stands h tc v) (hwf : tc.wellFormed = true)
    (hread : h.read v = .ok (.buffer maximum stamp es)) {len : Nat} (hne : len = 0 ∨ tc.element.gatherAllocInfo = 0 ∨
      tc.kind ≠ .alias ∧ es.length < len ∧ ¬ InBuffer h v stamp) (R : Prop) :
    sequenceReallocTo h v tc len = .ok none ∨ sequenceReallocTo h v tc len = .error .aborted ∨
      ∃ h' stamp' es', sequenceReallocTo h v tc len = .ok (some h') ∧ Good h R h' ∧
        h'.dynanys = h.dynanys ∧ h'.read v = .ok (.buffer maximum stamp' es') ∧
        es.length < es'.length := by
  unfold sequenceReallocTo
  by_cases hnone : len = 0 ∨ tc.element.gatherAllocInfo = 0
  · exact .inl (if_pos hnone)
  · obtain ⟨hl0, hz⟩ := not_or.mp hnone
    obtain ⟨halias, hlt, hnobody⟩ : tc.kind ≠ .alias ∧ es.length < len ∧ ¬ InBuffer h v stamp := by
      rcases hne with h0 | h0 | hne
      · exact absurd h0 hl0
      · exact absurd h0 hz
      · exact hne
    rw [if_neg hnone, if_neg halias]
    have hself := CTypeCode.skipAlias_of_ne halias
    obtain ⟨u, hu, hty⟩ := hk.read hs
    cases hread.symm.trans hu
    rw [hasType, Bool.and_eq_true, hself] at hty
    cases hc : copyEach tc.element (h.next + 1) es with
    | error r =>
      have hr := copyEach_error es hc hty.2
      subst hr
      exact .inr (.inl (by simp only [hread, hc, bind, Except.bind, if_neg (Nat.not_lt.mpr hlt.le)]))
    | ok c =>
      obtain ⟨es', n⟩ := c
      obtain ⟨hlen, htes, hn⟩ := copyEach_typed es hc hty.2
      let new : List Stored := es' ++ List.replicate (len - es.length) (initDefault tc.element)
      have hnewlen : es.length < new.length := by
        simp only [new, List.length_append, List.length_replicate, hlen]
        omega
      have hnewty : hasType tc (.buffer maximum h.next new) = true := by
        rw [hasType, Bool.and_eq_true, hself]
        exact ⟨hty.1, eachHasType_grown _ htes (hasType_initDefault _ (element_wellFormed hwf))⟩
      have hk' := hk.bump (show h.next ≤ n by omega)
      obtain ⟨h', hwrite, hw⟩ := write_ok (h := { h with next := n }) hread
        (.buffer maximum h.next new)
      have hbelow : ∀ c y b r z, h.dynanys c = some y → y.any = some b →
          b.value = some ⟨v.block, v.path ++ r⟩ →
          (Store.buffer maximum stamp es : Stored).follow r = some z →
          r = [] ∧ z = .buffer maximum stamp es := by
        intro c y b r z hy hb hv hr
        rcases follow_buffer hr with he | ⟨i, r', rfl, -⟩
        · exact he
        · exact absurd ⟨c, y, b, i, r', hy, hb, hv⟩ hnobody
      have hgood : Good h R h' := by
        refine ⟨hk'.write hs hnewty (fun c y b r z hy hb hv hr => ?_) hw, fun _ hall => ?_⟩
        · obtain ⟨rfl, rfl⟩ := hbelow c y b r z hy hb hv hr
          refine ⟨_, rfl, ?_⟩
          by_cases hkind : b.type.skipAlias.kind = .sequence
          · refine .inr (.inl ?_)
            cases hch : y.children with
            | nil => rfl
            | cons e cs =>
              rw [List.append_nil] at hv
              obtain ⟨z, any, i, hz, -, hany, hval⟩ := inBuffer_of_child hk hy hb hv hkind hread
                (hch ▸ List.mem_cons_self)
              exact absurd ⟨e, z, any, i, [], hz, hany, hval⟩ hnobody
          · exact .inr (.inr hkind)
        · refine ranged_write hk' hw (fun c y b r z hy hb hv hr hkind hin => ?_) hall
          obtain ⟨rfl, rfl⟩ := hbelow c y b r z hy hb hv hr
          refine ⟨_, _, _, rfl, ?_⟩
          rcases hin with hi | ⟨m, hm, hi⟩
          · exact .inl hi
          · rw [List.append_nil] at hv
            have hcount : componentCount ({ h with next := n } : Heap) b = .ok es.length := by
              have hread' : Heap.read { h with next := n } ⟨v.block, v.path⟩ =
                .ok (.buffer maximum stamp es) := hread
              simp only [componentCount, hkind, hv, hread', bind, Except.bind]
            cases hcount.symm.trans hm
            exact .inr (by omega)
      have hread' := hw.read_self [] (z := .buffer maximum h.next new) rfl
      rw [List.append_nil] at hread'
      refine .inr (.inr ⟨h', h.next, new, ?_, hgood, hw.dynanys, hread', hnewlen⟩)
      simp only [hread, hc, bind, Except.bind, if_neg (Nat.not_lt.mpr hlt.le)]
      rw [show Heap.write { h with next := n } v (.buffer maximum h.next new) = .ok h' from hwrite]

theorem long_le (n : Nat) : long n ≤ n := by
  rw [long, Int.bmod_def]
  split <;> omega

theorem setLength_good {h : Heap} (hk : Kept h) {d : Nat} {x : DynAny} {a : CorbaAny}
    (hd : h.dynanys d = some x) (ha : x.any = some a) {length : Nat} (hr : Resizes h a length)
    (R : Prop) : Leaves (Good h R) (setLength h d x a length) := by
  unfold setLength
  split
  · exact good_same hk R
  · rename_i hseq
    have hseq : a.type.skipAlias.kind = .sequence := not_not.mp hseq
    cases hv : a.value with
    | none => exact good_same hk R
    | some v =>
      have hs := hk.stands d x a v hd ha hv
      obtain ⟨maximum, stamp, es, hread, -⟩ := hk.sequence hs hseq
      simp only [hread, bind, Except.bind]
      split
      · exact good_same hk R
      · rename_i hne
        split
        · exact good_same hk R
        · rename_i hmax
          have hmax' : maximum = 0 ∨ length ≤ maximum := by omega
          have hcond : length = 0 ∨ a.type.element.gatherAllocInfo = 0 ∨
              a.type.kind ≠ .alias ∧ es.length < length ∧ ¬ InBuffer h v stamp := by
            by_cases h0 : length = 0
            · exact .inl h0
            · by_cases hz : a.type.element.gatherAllocInfo = 0
              · exact .inr (.inl hz)
              · exact .inr (.inr (hr v maximum stamp es hseq hv hread hne hmax' h0 hz))
          rcases sequenceReallocTo_good hk hs (hk.wellFormed d x a hd ha) hread hcond R with
            he | he | ⟨h', stamp', es', he, hgood, hdyn, hread', hlt⟩
          · simp only [he]
            exact good_same hk R
          · simp only [he]
            exact rfl
          · simp only [he]
            split
            · refine hgood.trans (setIdx_good hgood.1 (hdyn ▸ hd) ha ⟨fun n hn => ?_, fun _ => ?_⟩)
              · simp [fixedCount, hseq] at hn
              · refine .inr ⟨es'.length, ?_, ?_⟩
                · simp only [componentCount, hseq, hv, hread', bind, Except.bind]
                · have hle := long_le es.length
                  omega
            · exact hgood

/-- A DynAny that `dynany_invalidate` comes to from `d`. -/
inductive Under (h : Heap) (d : Nat) : Nat → Prop where
  | child {c : Nat} {y : DynAny} (hc : h.dynanys c = some y) (hp : y.parent = some d) : Under h d c
  | deeper {c p : Nat} {y : DynAny} (hc : h.dynanys c = some y) (hp : y.parent = some p)
      (hu : Under h d p) : Under h d c

theorem not_under {h h' : Heap} (hk' : Kept h') {d : Nat} (hp : Pruned h h' d)
    {c : Nat} (hu : Under h d c) : ∀ y, h'.dynanys c = some y → y.any = none := by
  have hback : ∀ {c q y}, h.dynanys c = some y → y.parent = some q →
      (∀ z, h'.dynanys q = some z → z.children = []) →
      ∀ y', h'.dynanys c = some y' → y'.any = none := by
    intro c q y hy hq hnil y' hy'
    cases ha : y'.any with
    | none => rfl
    | some a =>
      have hyy : y' = y ∨ c = d := by
        by_cases hcd : c = d
        · exact .inr hcd
        · rcases hp.rest c hcd with he | ⟨w, -, hw'⟩
          · rw [he, hy] at hy'
            exact .inl (Option.some.inj hy').symm
          · cases hw'.symm.trans hy'
            cases ha
      have hq' : y'.parent = some q := by
        rcases hyy with rfl | rfl
        · exact hq
        · obtain ⟨x, hx, hx'⟩ := hp.root
          cases hy.symm.trans hx
          cases hx'.symm.trans hy'
          exact hq
      obtain ⟨z, hz, hmem⟩ := hk'.back c y' q hy' hq'
      rw [hnil z hz] at hmem
      cases hmem
  induction hu with
  | child hc hpar =>
    refine hback hc hpar fun z hz => ?_
    obtain ⟨x, -, hx'⟩ := hp.root
    cases hx'.symm.trans hz
    rfl
  | deeper hc hpar _ ih => exact hback hc hpar fun z hz => (hk'.idle _ z hz (ih z hz)).1

theorem buffer_of_hasType {tc : CTypeCode} {u : Stored} (ht : hasType tc u = true)
    (hseq : tc.skipAlias.kind = .sequence) : ∃ header stamp es, u = .buffer header stamp es := by
  cases u with
  | leaf =>
    rw [hasType, hseq] at ht
    cases ht
  | record =>
    rw [hasType, hseq] at ht
    cases ht
  | buffer header stamp es => exact ⟨header, stamp, es, rfl⟩

theorem inRange_buffer {h : Heap} {y : DynAny} {b : CorbaAny} {q : Addr} {header stamp : Nat}
    {es : List Stored} (hi : InRange h y b) (hseq : b.type.skipAlias.kind = .sequence)
    (hv : b.value = some q) (hr : h.read q = .ok (.buffer header stamp es)) :
    y.idx = -1 ∨ y.idx < es.length := by
  rcases hi with hi | ⟨n, hn, hi⟩
  · exact .inl hi
  · simp only [componentCount, hseq, hv, hr, bind, Except.bind, Except.ok.injEq] at hn
    exact .inr (hn ▸ hi)

/-- What is known of all who stand in the component `p` of the value at `v`. -/
def Inside (h : Heap) (v : Addr) (p : Part) (P : Nat → DynAny → CorbaAny → List Part → Prop) :
    Prop :=
  ∀ c y b r, h.dynanys c = some y → y.any = some b →
    b.value = some ⟨v.block, v.path ++ p :: r⟩ → P c y b r

/-- A component is replaced by another value of its type, and nobody stands in its buffers. -/
theorem replaced_keeps {h : Heap} (hk : Kept h) {v : Addr} {p : Part} {sub : CTypeCode}
    {m m' : Stored} (hm : hasType sub m = true) (hm' : hasType sub m' = true)
    (hin : Inside h v p fun _ _ _ r => ∀ q ∈ r, q.inner = true) :
    Inside h v p fun _ y b r => ∀ z, m.follow r = some z → ∃ z', m'.follow r = some z' ∧
      (z'.shape = z.shape ∨ y.children = [] ∨ b.type.skipAlias.kind ≠ .sequence) := by
  intro c y b r hy hb hv z hz
  obtain ⟨z', hz'⟩ := follow_inner hm hm' (hin c y b r hy hb hv) hz
  refine ⟨z', hz', ?_⟩
  by_cases hseq : b.type.skipAlias.kind = .sequence
  · refine .inr (.inl ?_)
    obtain ⟨header, stamp, es, hr, -⟩ := hk.sequence (hk.stands c y b _ hy hb hv) hseq
    cases hch : y.children with
    | nil => rfl
    | cons e cs =>
      obtain ⟨x, any, i, hx, -, hany, hval⟩ := inBuffer_of_child hk hy hb hv hseq hr
        (hch ▸ List.mem_cons_self)
      have hplace : any.value = some ⟨v.block, v.path ++ p :: (r ++ [.element stamp i])⟩ := by
        rw [hval, Addr.part]
        simp
      have hinner := hin e x any _ hx hany hplace (.element stamp i)
        (List.mem_append_right r List.mem_cons_self)
      cases hinner
  · exact .inr (.inr hseq)

/-- Those who stand on a replaced sequence find the copy of the one they are told of. -/
theorem replaced_counts {h : Heap} (hk : Kept h) {v : Addr} {p : Part} {sub : CTypeCode} {k k' : Nat}
    {m m' w : Stored} (hm : hasType sub m = true) (hw : hasType sub w = true)
    (hcopy : copyValueCore sub k w = .ok (m', k'))
    (hread : ∀ r z, m.follow r = some z → h.read ⟨v.block, v.path ++ p :: r⟩ = .ok z)
    (hin : Inside h v p fun _ y b r => (∀ q ∈ r, q.inner = true) ∧
      (b.type.skipAlias.kind = .sequence → ∀ u, w.follow r = some u →
        y.idx = -1 ∨ y.idx < count u)) :
    Inside h v p fun _ y b r => ∀ z, m.follow r = some z → b.type.skipAlias.kind = .sequence →
      ∃ header stamp es, m'.follow r = some (.buffer header stamp es) ∧
        (y.idx = -1 ∨ y.idx < es.length) := by
  intro c y b r hy hb hv z hz hseq
  obtain ⟨hinner, hidx⟩ := hin c y b r hy hb hv
  obtain ⟨u, hu⟩ := follow_inner hm hw hinner hz
  obtain ⟨u', hu', hcount⟩ := copyValueCore_follow hcopy hinner hu
  obtain ⟨t, ht, htz⟩ := hasType_follow hm hz
  obtain ⟨t', ht', htu⟩ := hasType_follow (copyValueCore_typed w hcopy hw).1 hu'
  cases ht.symm.trans ht'
  obtain ⟨header, stamp, es, hr, -⟩ := hk.sequence (hk.stands c y b _ hy hb hv) hseq
  cases (hread r z hz).symm.trans hr
  rw [hasType, Bool.and_eq_true, beq_iff_eq] at htz
  obtain ⟨header', stamp', es', rfl⟩ := buffer_of_hasType htu htz.1
  refine ⟨header', stamp', es', hu', ?_⟩
  rcases hidx hseq u hu with hi | hi
  · exact .inl hi
  · exact .inr (by rw [show es'.length = count u from hcount]; exact hi)

/-- What is checked of the elements. -/
theorem checkElements_ok (sub : CTypeCode) : (n : Nat) → (value : List ClientAny) →
    (checkElements sub n value = .error .aborted ∨ ∃ b, checkElements sub n value = .ok b) ∧
      (checkElements sub n value = .ok true → ∀ i, i < n → ∀ a, value[i]? = some a →
        sub.equal a.type = some true)
  | 0, _ => ⟨.inr ⟨true, rfl⟩, fun _ i hi => absurd hi (Nat.not_lt_zero i)⟩
  | n + 1, [] => ⟨.inr ⟨true, rfl⟩, fun _ i _ a ha => by simp at ha⟩
  | n + 1, a :: value => by
    obtain ⟨h1, h2⟩ := checkElements_ok sub n value
    rw [checkElements]
    cases he : sub.equal a.type with
    | none => exact ⟨.inl rfl, fun h => by cases h⟩
    | some b =>
      cases b with
      | false => exact ⟨.inr ⟨false, rfl⟩, fun h => by cases h⟩
      | true =>
        refine ⟨h1, fun h i hi c hc => ?_⟩
        cases i with
        | zero =>
          cases hc
          exact he
        | succ i => exact h2 h i (Nat.lt_of_succ_lt_succ hi) c hc

/-- `DynamicAny_DynSequence_set_elements` writes elements that are there, of the right type, and
whoever stands in one of their buffers is invalidated. -/
def Refills (h : Heap) (d : Nat) (a : CorbaAny) (value : List ClientAny) : Prop :=
  ∀ v maximum stamp es, a.type.skipAlias.kind = .sequence → a.value = some v →
    h.read v = .ok (.buffer maximum stamp es) →
    checkElements a.type.element es.length value = .ok true →
    value.length ≤ es.length ∧ (a.type.kind = .alias → value = []) ∧
      ∀ i, i < value.length → Inside h v (.element stamp i) fun c _ _ r =>
        (∀ q ∈ r, q.inner = true) ∨ Under h d c

/-- And whoever stands on one of the new sequences has its cursor in it. -/
def RefillsInRange (h : Heap) (d : Nat) (a : CorbaAny) (value : List ClientAny) : Prop :=
  ∀ v maximum stamp es, a.value = some v → h.read v = .ok (.buffer maximum stamp es) →
    ∀ (i : Nat) (w : ClientAny), value[i]? = some w →
      Inside h v (.element stamp i) fun c y b r => Under h d c ∨
        (b.type.skipAlias.kind = .sequence → ∀ u, w.value.follow r = some u →
          y.idx = -1 ∨ y.idx < count u)

/-- Those who stand somewhere after an invalidation stood there before. -/
theorem Inside.pruned {h h' : Heap} (hk' : Kept h') {d : Nat} (hp : Pruned h h' d) {v : Addr}
    {p : Part} {P : Nat → DynAny → CorbaAny → List Part → Prop}
    (hP : ∀ c y b r children, P c y b r → P c { y with children := children } b r)
    (hin : Inside h v p fun c y b r => P c y b r ∨ Under h d c) : Inside h' v p P := by
  intro c y b r hy hb hv
  have hentry : ∃ z, h.dynanys c = some z ∧ z.any = some b ∧
      ∃ children, y = { z with children := children } := by
    by_cases hcd : c = d
    · subst c
      obtain ⟨x, hx, hx'⟩ := hp.root
      cases hx'.symm.trans hy
      exact ⟨x, hx, hb, [], rfl⟩
    · rcases hp.rest c hcd with he | ⟨z, -, hz'⟩
      · exact ⟨y, he ▸ hy, hb, y.children, rfl⟩
      · cases hz'.symm.trans hy
        cases hb
  obtain ⟨z, hz, hzb, children, rfl⟩ := hentry
  rcases hin c z b r hz hzb hv with h1 | hu
  · exact hP c z b r children h1
  · rw [not_under hk' hp hu _ hy] at hb
    cases hb

theorem ranged_pruned {h h' : Heap} {d : Nat} (hp : Pruned h h' d) (hall : Ranged h) :
    Ranged h' := by
  intro c y b hy hb
  have hcount : componentCount h' b = componentCount h b :=
    componentCount_of_blocks fun _ _ => by rw [hp.blocks]
  rw [InRange, hcount]
  by_cases hcd : c = d
  · subst c
    obtain ⟨x, hx, hx'⟩ := hp.root
    cases hx'.symm.trans hy
    exact hall _ x b hx hb
  · rcases hp.rest c hcd with he | ⟨z, -, hz'⟩
    · exact hall c y b (he ▸ hy) hb
    · cases hz'.symm.trans hy
      cases hb

/-- The elements with the first of them replaced. -/
theorem getElem?_refilled {vs es : List Stored} (i : Nat) :
    (vs ++ es.drop vs.length)[i]? = if i < vs.length then vs[i]? else es[i]? := by
  split
  · rename_i hi
    exact List.getElem?_append_left hi
  · rename_i hi
    rw [List.getElem?_append_right (by omega), List.getElem?_drop]
    congr 1
    omega

/-- The elements are written where the old ones are. -/
theorem refill_good {h h' : Heap} (hk' : Kept h') {d : Nat} {a : CorbaAny}
    {value : List ClientAny} {v : Addr} {maximum stamp : Nat} {es vs : List Stored} {n : Nat}
    (hp : Pruned h h' d) (hs : Stands h' a.type v) (hv : a.value = some v) (hread : h.read v = .ok (.buffer maximum stamp es))
    (hlen : value.length ≤ es.length) (halias : a.type.kind = .alias → value = [])
    (hin : ∀ i, i < value.length → Inside h v (.element stamp i) fun c _ _ r =>
        (∀ q ∈ r, q.inner = true) ∨ Under h d c)
    (hty : eachHasType a.type.element (value.map (·.value)) = true)
    (hcopy : copyEach a.type.element h'.next (value.map (·.value)) = .ok (vs, n)) :
    ∃ g, Heap.write { h' with next := n } v (.buffer maximum stamp (vs ++ es.drop vs.length)) =
      .ok g ∧ Good h (RefillsInRange h d a value) g := by
  have hread' : h'.read v = .ok (.buffer maximum stamp es) := by
    rw [Heap.read, hp.blocks]
    exact hread
  obtain ⟨u, hu, htu⟩ := hk'.read hs
  cases hread'.symm.trans hu
  rw [hasType, Bool.and_eq_true] at htu
  obtain ⟨hlvs, htvs, hn⟩ := copyEach_typed _ hcopy hty
  rw [List.length_map] at hlvs
  have hk'' := hk'.bump hn
  have helement : value ≠ [] → a.type.skipAlias.element = a.type.element := by
    intro hne
    rw [CTypeCode.skipAlias_of_ne fun hk => hne (halias hk)]
  have hnew : hasType a.type (.buffer maximum stamp (vs ++ es.drop vs.length)) = true := by
    rw [hasType, Bool.and_eq_true, eachHasType_append, Bool.and_eq_true]
    refine ⟨htu.1, ?_, ?_⟩
    · by_cases hne : value = []
      · rw [List.eq_nil_of_length_eq_zero (hlvs.trans (by rw [hne]; rfl))]
        rfl
      · rw [helement hne]
        exact htvs
    · exact (eachHasType_iff _ _).mpr fun m hm =>
        (eachHasType_iff _ _).mp htu.2 m (List.mem_of_mem_drop hm)
  have hnewlen : (vs ++ es.drop vs.length).length = es.length := by
    rw [List.length_append, List.length_drop]
    omega
  -- what is known of an element that is replaced
  have hold : ∀ {i m}, i < value.length → es[i]? = some m → hasType a.type.element m = true := by
    intro i m hi hm
    rw [← helement (List.ne_nil_of_length_pos (by omega))]
    exact (eachHasType_iff _ _).mp htu.2 m (List.mem_of_getElem? hm)
  have hinner : ∀ {i}, i < value.length → Inside h' v (.element stamp i) fun _ _ _ r =>
      ∀ q ∈ r, q.inner = true :=
    fun hi => Inside.pruned hk' hp (fun _ _ _ _ _ hq => hq) (hin _ hi)
  have hbelow : ∀ {i r z}, (es[i]?.bind fun m => m.follow r) = some z →
      h'.read ⟨v.block, v.path ++ .element stamp i :: r⟩ = .ok z := by
    intro i r z hz
    obtain ⟨b, w, hb, hw⟩ := read_ok.mp hread'
    refine read_ok.mpr ⟨b, w, hb, ?_⟩
    rw [follow_append, hw]
    simpa [Store.part] using hz
  obtain ⟨g, hwrite, hw⟩ := write_ok (h := { h' with next := n }) hread'
    (.buffer maximum stamp (vs ++ es.drop vs.length))
  refine ⟨g, hwrite, hk''.write hs hnew (fun c y b r z hy hb hval hr => ?_) hw,
    fun hrange hall => ?_⟩
  · rcases follow_buffer hr with ⟨rfl, rfl⟩ | ⟨i, r', rfl, m, hm, hz⟩
    · exact ⟨_, rfl, .inl (by simp only [shape, hnewlen])⟩
    · rw [follow_cons, Store.part, if_pos rfl, getElem?_refilled]
      split
      · rename_i hi
        have hm' := List.getElem?_eq_getElem hi
        rw [hm', Option.bind_some]
        exact replaced_keeps hk' (hold (hlvs ▸ hi) hm)
          ((eachHasType_iff _ _).mp htvs _ (List.mem_of_getElem? hm')) (hinner (hlvs ▸ hi))
          c y b r' hy hb hval z hz
      · rw [hm]
        exact ⟨z, hz, .inl rfl⟩
  · refine ranged_write hk'' hw (fun c y b r z hy hb hval hr hkind hin' => ?_)
      (show Ranged { h' with next := n } from (ranged_pruned hp hall : Ranged h'))
    have hrange' : InRange h' y b := hin'
    rcases follow_buffer hr with ⟨rfl, rfl⟩ | ⟨i, r', rfl, m, hm, hz⟩
    · rw [List.append_nil] at hval
      refine ⟨_, _, _, rfl, ?_⟩
      rw [hnewlen]
      exact inRange_buffer hrange' hkind hval hread'
    · rw [follow_cons, Store.part, if_pos rfl, getElem?_refilled]
      split
      · rename_i hi
        have hi' : i < value.length := hlvs ▸ hi
        have hw' : (value.map (·.value))[i]? = some value[i].value := by
          rw [List.getElem?_map, List.getElem?_eq_getElem hi']
          rfl
        obtain ⟨k, k', m', hm', hc⟩ := (copyEach_get hcopy).2 i _ hw'
        rw [hm', Option.bind_some]
        have htw : hasType a.type.element value[i].value = true :=
          (eachHasType_iff _ _).mp hty _ (List.mem_of_getElem? hw')
        refine replaced_counts hk' (hold hi' hm) htw hc
          (fun r z hr => hbelow (by rw [hm]; exact hr)) ?_ c y b r' hy hb hval z hz hkind
        refine Inside.pruned hk' hp (fun _ _ _ _ _ hq => hq) fun c y b r hy hb hval => ?_
        rcases hin i hi' c y b r hy hb hval with hq | hu
        · rcases hrange v maximum stamp es hv hread i _ (List.getElem?_eq_getElem hi')
            c y b r hy hb hval with hu | hc
          · exact .inr hu
          · exact .inl ⟨hq, hc⟩
        · exact .inr hu
      · rw [hm]
        obtain ⟨header, st, es', hr', -⟩ := hk'.sequence (hk'.stands c y b _ hy hb hval) hkind
        cases (hbelow (by rw [hm]; exact hz)).symm.trans hr'
        exact ⟨header, st, es', hz, inRange_buffer hrange' hkind hval hr'⟩

theorem setElements_good {h : Heap} (hk : Kept h) {d : Nat} {x : DynAny} {a : CorbaAny}
    (hd : h.dynanys d = some x) (ha : x.any = some a) {value : List ClientAny}
    (hr : Refills h d a value) :
    Leaves (Good h (RefillsInRange h d a value)) (setElements h d a value) := by
  unfold setElements
  split
  · exact good_same hk _
  · rename_i hseq
    have hseq : a.type.skipAlias.kind = .sequence := not_not.mp hseq
    cases hv : a.value with
    | none => exact good_same hk _
    | some v =>
      have hs := hk.stands d x a v hd ha hv
      obtain ⟨maximum, stamp, es, hread, -⟩ := hk.sequence hs hseq
      simp only [hread, bind, Except.bind]
      obtain ⟨hcheck, hequal⟩ := checkElements_ok a.type.element es.length value
      rcases hcheck with he | ⟨b, he⟩
      · simp only [he]
        exact rfl
      · cases b with
        | false =>
          simp only [he, Bool.false_eq_true, if_false]
          exact good_same hk _
        | true =>
          obtain ⟨h', hi, hp, hk'⟩ := invalidate_ok hk hd
          obtain ⟨hlen, halias, hin⟩ := hr v maximum stamp es hseq hv hread he
          have hread' : h'.read v = .ok (.buffer maximum stamp es) := by
            rw [Heap.read, hp.blocks]
            exact hread
          have hbad : ¬ (es.length < value.length ∨ a.type.kind = .alias ∧ value ≠ []) := by
            rintro (hlt | ⟨hk1, hne⟩)
            · omega
            · exact hne (halias hk1)
          have hty : eachHasType a.type.element (value.map (·.value)) = true := by
            refine (eachHasType_iff _ _).mpr fun m hm => ?_
            obtain ⟨i, hi, rfl⟩ := List.mem_iff_getElem.mp hm
            rw [List.length_map] at hi
            rw [List.getElem_map, hasType_of_equal _
              (hequal he i (by omega) _ (List.getElem?_eq_getElem hi))]
            exact value[i].typed
          simp only [he, hi, hread', if_true, if_neg hbad]
          cases hc : copyEach a.type.element h'.next (value.map (·.value)) with
          | error r => exact copyEach_error _ hc hty
          | ok c =>
            obtain ⟨vs, n⟩ := c
            obtain ⟨x', hx, hx'⟩ := hp.root
            cases hd.symm.trans hx
            obtain ⟨g, hg, hgood⟩ := refill_good hk' hp (hk'.stands d _ a v hx' ha hv) hv
              hread hlen halias hin hty hc
            simp only [hg]
            exact hgood

/-- What is checked of the members. -/
theorem checkMembers_ok : (names : List (List UInt8)) → (tcs : List CTypeCode) →
    (value : List (List UInt8 × ClientAny)) → value.length = tcs.length →
    tcs.length ≤ names.length →
    (checkMembers names tcs value = .error .aborted ∨ ∃ r, checkMembers names tcs value = .ok r) ∧
      (checkMembers names tcs value = .ok none → haveTypes tcs (value.map (·.2.value)) = true)
  | [], [], [], _, _ => ⟨.inr ⟨none, rfl⟩, fun _ => rfl⟩
  | _ :: _, [], [], _, _ => ⟨.inr ⟨none, rfl⟩, fun _ => rfl⟩
  | name :: names, tc :: tcs, (id, a) :: value, hl, hn => by
    obtain ⟨h1, h2⟩ := checkMembers_ok names tcs value (Nat.succ.inj hl) (Nat.le_of_succ_le_succ hn)
    rw [checkMembers]
    split
    · exact ⟨.inr ⟨_, rfl⟩, fun h => by cases h⟩
    · cases he : a.type.equal tc with
      | none => exact ⟨.inl rfl, fun h => by cases h⟩
      | some b =>
        cases b with
        | false => exact ⟨.inr ⟨_, rfl⟩, fun h => by cases h⟩
        | true =>
          refine ⟨h1, fun h => ?_⟩
          rw [List.map_cons, haveTypes, h2 h, Bool.and_true, ← hasType_of_equal _ he]
          exact a.typed
  | [], _ :: _, _, _, hn => absurd hn (Nat.not_succ_le_zero _)
  | _, [], _ :: _, hl, _ => absurd hl (Nat.succ_ne_zero _)
  | _, _ :: _, [], hl, _ => absurd hl.symm (Nat.succ_ne_zero _)

/-- `DynamicAny_DynStruct_set_members` finds the names, and whoever stands in a buffer of a member
that is written is invalidated. -/
def Remembers (h : Heap) (d : Nat) (a : CorbaAny) (value : List (List UInt8 × ClientAny)) : Prop :=
  a.type.skipAlias.kind = .struct → value.length = a.type.subtypes.length →
    a.type.kind ≠ .alias ∧ a.type.subtypes.length ≤ a.type.info.subnames.length ∧
      ∀ v, a.value = some v → checkMembers a.type.info.subnames a.type.subtypes value = .ok none →
        ∀ i, i < value.length → Inside h v (.member i) fun c _ _ r =>
          (∀ q ∈ r, q.inner = true) ∨ Under h d c

/-- And whoever stands on one of the new sequences has its cursor in it. -/
def RemembersInRange (h : Heap) (d : Nat) (a : CorbaAny) (value : List (List UInt8 × ClientAny)) :
    Prop :=
  ∀ v, a.value = some v → ∀ (i : Nat) (w : List UInt8 × ClientAny), value[i]? = some w →
    Inside h v (.member i) fun c y b r => Under h d c ∨
      (b.type.skipAlias.kind = .sequence → ∀ u, w.2.value.follow r = some u →
        y.idx = -1 ∨ y.idx < count u)

/-- A way into a struct begins with one of its members. -/
theorem follow_record {ms : List Stored} {r : List Part} {z : Stored}
    (h : (Store.record ms : Stored).follow r = some z) :
    r = [] ∧ z = .record ms ∨ ∃ i r', r = .member i :: r' ∧
      ∃ m, ms[i]? = some m ∧ m.follow r' = some z := by
  cases r with
  | nil =>
    cases h
    exact .inl ⟨rfl, rfl⟩
  | cons p r =>
    cases p with
    | element => cases h
    | member i =>
      rw [follow_cons, Store.part] at h
      cases hi : ms[i]? with
      | none =>
        rw [hi] at h
        cases h
      | some m =>
        rw [hi] at h
        exact .inr ⟨i, r, rfl, m, hi, h⟩

/-- The members are written where the old ones are. -/
theorem rewrite_good {h h' : Heap} (hk' : Kept h') {d : Nat} {a : CorbaAny}
    {value : List (List UInt8 × ClientAny)} {v : Addr} {ms' : List Stored} {n : Nat}
    (hp : Pruned h h' d) (hs : Stands h' a.type v) (hkind : a.type.kind = .struct)
    (hv : a.value = some v) (hlen : value.length = a.type.subtypes.length)
    (hin : ∀ i, i < value.length → Inside h v (.member i) fun c _ _ r =>
        (∀ q ∈ r, q.inner = true) ∨ Under h d c)
    (hty : haveTypes a.type.subtypes (value.map (·.2.value)) = true)
    (hcopy : copyMembers a.type.subtypes h'.next (value.map (·.2.value)) = .ok (ms', n)) :
    ∃ g, Heap.write { h' with next := n } v (.record ms') = .ok g ∧
      Good h (RemembersInRange h d a value) g := by
  have hself : a.type.skipAlias = a.type :=
    CTypeCode.skipAlias_of_ne (by rw [hkind]; decide)
  obtain ⟨u, hu, htu⟩ := hk'.read hs
  have htype : ∀ xs, hasType a.type (.record xs) = haveTypes a.type.subtypes xs := by
    intro xs
    rw [hasType, hself, hkind]
  obtain ⟨ms, rfl⟩ : ∃ ms, u = .record ms := by
    cases u with
    | leaf =>
      rw [hasType, hself, hkind] at htu
      cases htu
    | buffer =>
      rw [hasType, hself, hkind] at htu
      cases htu
    | record ms => exact ⟨ms, rfl⟩
  rw [htype] at htu
  obtain ⟨htms, hn⟩ := copyMembers_typed _ hcopy hty
  obtain ⟨hlms, hms⟩ := (haveTypes_iff _ _).mp htu
  obtain ⟨hlms', hms'⟩ := (haveTypes_iff _ _).mp htms
  have hk'' := hk'.bump hn
  have hbelow : ∀ {i r z}, (ms[i]?.bind fun m => m.follow r) = some z →
      h'.read ⟨v.block, v.path ++ .member i :: r⟩ = .ok z := by
    intro i r z hz
    obtain ⟨b, w, hb, hw⟩ := read_ok.mp hu
    refine read_ok.mpr ⟨b, w, hb, ?_⟩
    rw [follow_append, hw]
    simpa [Store.part] using hz
  obtain ⟨g, hwrite, hw⟩ := write_ok (h := { h' with next := n }) hu (.record ms')
  refine ⟨g, hwrite, hk''.write hs ((htype ms').trans htms) (fun c y b r z hy hb hval hr => ?_) hw,
    fun hrange hall => ?_⟩
  · rcases follow_record hr with ⟨rfl, rfl⟩ | ⟨i, r', rfl, m, hm, hz⟩
    · exact ⟨_, rfl, .inl rfl⟩
    · have hi : i < a.type.subtypes.length := hlms ▸ (List.getElem?_eq_some_iff.mp hm).1
      have hm' := List.getElem?_eq_getElem (hlms' ▸ hi : i < ms'.length)
      have ht := List.getElem?_eq_getElem hi
      rw [follow_cons, Store.part, hm', Option.bind_some]
      exact replaced_keeps hk' (hms i _ m ht hm) (hms' i _ _ ht hm')
        (Inside.pruned hk' hp (fun _ _ _ _ _ hq => hq) (hin i (hlen ▸ hi))) c y b r' hy hb hval z hz
  · refine ranged_write hk'' hw (fun c y b r z hy hb hval hr hseq _ => ?_)
      (show Ranged { h' with next := n } from (ranged_pruned hp hall : Ranged h'))
    rcases follow_record hr with ⟨rfl, rfl⟩ | ⟨i, r', rfl, m, hm, hz⟩
    · obtain ⟨header, st, es, hread, -⟩ := hk'.sequence (hk'.stands c y b _ hy hb hval) hseq
      rw [List.append_nil] at hread
      cases hu.symm.trans hread
    · have hi : i < a.type.subtypes.length := hlms ▸ (List.getElem?_eq_some_iff.mp hm).1
      have hi' : i < value.length := hlen ▸ hi
      have hw' : (value.map (·.2.value))[i]? = some value[i].2.value := by
        rw [List.getElem?_map, List.getElem?_eq_getElem hi']
        rfl
      obtain ⟨t, k, k', m', ht, hm', hc⟩ := (copyMembers_get hcopy).2 i _ hw'
      rw [follow_cons, Store.part, hm', Option.bind_some]
      refine replaced_counts hk' (hms i t m ht hm) (((haveTypes_iff _ _).mp hty).2 i t _ ht hw') hc
        (fun r z hr => hbelow (by rw [hm]; exact hr)) ?_ c y b r' hy hb hval z hz hseq
      refine Inside.pruned hk' hp (fun _ _ _ _ _ hq => hq) fun c y b r hy hb hval => ?_
      rcases hin i hi' c y b r hy hb hval with hq | hu
      · rcases hrange v hv i _ (List.getElem?_eq_getElem hi') c y b r hy hb hval with hu | hc
        · exact .inr hu
        · exact .inl ⟨hq, hc⟩
      · exact .inr hu

theorem setMembers_good {h : Heap} (hk : Kept h) {d : Nat} {x : DynAny} {a : CorbaAny}
    (hd : h.dynanys d = some x) (ha : x.any = some a) {value : List (List UInt8 × ClientAny)}
    (hr : Remembers h d a value) :
    Leaves (Good h (RemembersInRange h d a value)) (setMembers h d a value) := by
  unfold setMembers
  split
  · exact good_same hk _
  · rename_i hstruct
    have hstruct := not_not.mp hstruct
    split
    · exact good_same hk _
    · rename_i hlen
      have hlen := not_not.mp hlen
      obtain ⟨halias, hnames, hin⟩ := hr hstruct hlen
      have hkind : a.type.kind = .struct := by
        rwa [CTypeCode.skipAlias_of_ne halias] at hstruct
      obtain ⟨h', hi, hp, hk'⟩ := invalidate_ok hk hd
      have hsame : Good h (RemembersInRange h d a value) h' :=
        ⟨hk', fun _ hall => ranged_pruned hp hall⟩
      simp only [hi, bind, Except.bind, if_neg halias]
      obtain ⟨hcheck, hty⟩ := checkMembers_ok a.type.info.subnames a.type.subtypes value hlen hnames
      rcases hcheck with he | ⟨r, he⟩
      · simp only [he]
        exact rfl
      · cases r with
        | some e =>
          simp only [he]
          exact hsame
        | none =>
          simp only [he]
          cases hv : a.value with
          | none => exact hsame
          | some v =>
            cases hc : copyMembers a.type.subtypes h'.next (value.map (·.2.value)) with
            | error r => exact copyMembers_error _ hc (hty he)
            | ok c =>
              obtain ⟨ms', n⟩ := c
              obtain ⟨x', hx, hx'⟩ := hp.root
              cases hd.symm.trans hx
              obtain ⟨g, hg, hgood⟩ := rewrite_good hk' hp (hk'.stands d _ a v hx' ha hv) hkind hv
                hlen (hin v hv he) (hty he) hc
              simp only [hg]
              exact hgood

end ORBit2.Dynamic
