import ORBit2.DynAnyWrites

/-! Runs of clients with DynAnys: the calls after which links, places and cursors are right, and the
calls after which they are not. -/

set_option autoImplicit false

namespace ORBit2.Dynamic

open Runs Storage Storage.Store

theorem fixedCount_of_equal {tc tc' : CTypeCode} (h : tc.equal tc' = some true) :
    fixedCount tc = fixedCount tc' := by
  obtain ⟨hk, hs, ha⟩ := equal_parts (skipAlias_equal tc tc' h)
  unfold fixedCount
  rw [← hk]
  cases hc : tc.skipAlias.kind <;> try rfl
  case array => rw [(ha (.inl hc)).1]
  case struct => rw [(hs (.inl hc)).1]
  case except => rw [(hs (.inr hc)).1]

/-- `DynamicAny_DynAny_from_any`, with a value `v` that is still there when the destination has lost
its own. -/
theorem fromAny_good {h : Heap} (hk : Kept h) {d : Nat} {x : DynAny} {a : CorbaAny}
    (hd : h.dynanys d = some x) (ha : x.any = some a) (source : Source) (v : Option Stored)
    (hwf : source.type.wellFormed = true)
    (hsource : ∀ h' : Heap, a.type.equal source.type = some true →
      (∀ b, h'.blocks b = h.blocks b ∨
        x.parent = none ∧ ∃ w, a.value = some w ∧ w.block = b) → source.value h' d = .ok v)
    (ht : ∀ u, v = some u → hasType source.type u = true)
    (hz : v = none → source.type.gatherAllocInfo = 0) {R : Prop}
    (hR : R → a.type.equal source.type = some true → x.idx = -1 ∨ ∃ n : Nat, x.idx < n ∧
      ∀ h' value', (∀ u, v = some u → Holding h' source.type value' (count u)) →
        componentCount h' ⟨source.type, value', true⟩ = .ok n) :
    Leaves (Good h R) (fromAny h d a source) := by
  unfold fromAny
  cases he : a.type.equal source.type with
  | none => exact rfl
  | some b =>
    cases b with
    | false => exact good_same hk R
    | true =>
      obtain ⟨h₁, hi, hs, hd₁, hblocks⟩ := invalidateCur_ok hk hd ha
      have hk₁ := hk.shrink hs
      simp only [hi, hsource h₁ he hblocks, bind, Except.bind]
      cases hc : h₁.copyValue source.type v with
      | error r =>
        cases v with
        | none => cases hc
        | some u => exact copyValue_error (ht u rfl) hc
      | ok c =>
        obtain ⟨value, h₂⟩ := c
        have halloc := copyValue_ok hk₁ ht hz hc
        have hd₂ : h₂.dynany d = .ok x.nulled := dynany_ok (by rw [halloc.dynanys]; exact hd₁)
        simp only [hd₂]
        have hnone : ∀ y, h₁.dynanys d = some y → y.any = none := by
          intro y hy
          cases hd₁.symm.trans hy
          rfl
        have hcursor : ∀ n, fixedCount source.type = some n → x.idx ≤ 0 ∨ x.idx < n :=
          fun n hn => hk.cursor d x a n hd ha ((fixedCount_of_equal he).trans hn)
        have hin : R → InRange (h₂.set d { x.nulled with any := some ⟨source.type, value, true⟩ })
            { x.nulled with any := some ⟨source.type, value, true⟩ }
            ⟨source.type, value, true⟩ := by
          intro hr
          rcases hR hr he with hi | ⟨n, hlt, hn⟩
          · exact .inl hi
          · refine .inr ⟨n, hn _ value fun u hu hseq => ?_, hlt⟩
            subst hu
            obtain ⟨w, header, stamp, es, hw, hread, hl⟩ := copied_sequence (ht u rfl) hc hseq
            exact ⟨w, header, stamp, es, hw, hread, hl⟩
        have hgood := newRoot_good (x := { x.nulled with any := some ⟨source.type, value, true⟩ })
          hk₁ (hk₁.bound d _ hd₁) hnone halloc hwf rfl rfl rfl hcursor hin
        exact ⟨hgood.1, fun hr hall => hgood.2 hr (hs.ranged hk hall)⟩

/-- A value of the client counts as its copy does. -/
theorem componentCount_client {value : ClientAny} (hpos : 0 < count value.value) {h : Heap}
    {value' : Option Addr}
    (hhold : value.type.gatherAllocInfo ≠ 0 → Holding h value.type value' (count value.value)) :
    componentCount h ⟨value.type, value', true⟩ = .ok (count value.value) :=
  componentCount_of_hasType value.typed hpos fun hseq =>
    hhold (gatherAllocInfo_sequence _ hseq) hseq

theorem fromAny_client_good {h : Heap} (hk : Kept h) {d : Nat} {x : DynAny} {a : CorbaAny}
    (hd : h.dynanys d = some x) (ha : x.any = some a) (value : ClientAny) :
    Leaves (Good h (a.type.equal value.type = some true →
      x.idx = -1 ∨ 0 < count value.value ∧ x.idx < count value.value))
      (fromAny h d a (.client value)) := by
  by_cases hz : value.type.gatherAllocInfo = 0
  · refine fromAny_good hk hd ha (.client value) none value.wellFormed
      (fun _ _ _ => by rw [Source.value, if_pos hz]) (fun u hu => by cases hu) (fun _ => hz)
      fun hr he => ?_
    rcases hr he with hi | ⟨hpos, hlt⟩
    · exact .inl hi
    · exact .inr ⟨_, hlt, fun h' value' _ => componentCount_client hpos fun hne => absurd hz hne⟩
  · refine fromAny_good hk hd ha (.client value) (some value.value) value.wellFormed
      (fun _ _ _ => by rw [Source.value, if_neg hz])
      (fun u hu => by cases hu; exact value.typed) (fun hn => by cases hn) fun hr he => ?_
    rcases hr he with hi | ⟨hpos, hlt⟩
    · exact .inl hi
    · exact .inr ⟨_, hlt, fun h' value' hhold => componentCount_client hpos fun _ =>
        hhold _ rfl⟩

/-- `DynamicAny_DynAny_assign` reads nothing that it frees. -/
def Spares (d : Nat) (a : CorbaAny) (src : Nat) (other : CorbaAny) : Prop :=
  a.type.equal other.type = some true → a.release = true →
    src ≠ d ∧ ∀ v w, a.value = some v → other.value = some w → v.block ≠ w.block

/-- What is copied of a DynAny, and how often it counts. -/
theorem copied_count {h : Heap} (hk : Kept h) {src : Nat} {y : DynAny} {other : CorbaAny}
    (hy : h.dynanys src = some y) (ho : y.any = some other) {v : Option Stored}
    (hv : ∀ q, other.value = some q → ∃ u, h.read q = .ok u ∧ v = some u) {h' : Heap}
    {value' : Option Addr} (hhold : ∀ u, v = some u → Holding h' other.type value' (count u)) :
    componentCount h' ⟨other.type, value', true⟩ = componentCount h other := by
  refine componentCount_congr rfl fun hseq => ?_
  cases hq : other.value with
  | none => exact absurd (hk.empty src y other hy ho hq) (gatherAllocInfo_sequence _ hseq)
  | some q =>
    obtain ⟨header, stamp, es, hread, -⟩ := hk.sequence (hk.stands src y other q hy ho hq) hseq
    obtain ⟨u, hu, rfl⟩ := hv q hq
    cases hread.symm.trans hu
    obtain ⟨a', header', stamp', es', ha', hr', hl⟩ := hhold _ rfl hseq
    exact ⟨q, a', header, stamp, es, header', stamp', es', rfl, ha', hread, hr', hl⟩

theorem assign_good {h : Heap} (hk : Kept h) {d src : Nat} {x y : DynAny} {a other : CorbaAny}
    (hd : h.dynanys d = some x) (ha : x.any = some a) (hy : h.dynanys src = some y)
    (ho : y.any = some other) (hs : Spares d a src other) :
    Leaves (Good h (a.type.equal other.type = some true →
      x.idx = -1 ∨ ∃ n, componentCount h other = .ok n ∧ x.idx < n))
      (fromAny h d a (.dynany src other)) := by
  have hwf := hk.wellFormed src y other hy ho
  have hnot : a.type.equal other.type = some true → ¬ (src = d ∧ other.release = true) := by
    rintro he ⟨rfl, hr⟩
    cases hd.symm.trans hy
    cases ha.symm.trans ho
    exact (hs he hr).1 rfl
  cases hq : other.value with
  | none =>
    refine fromAny_good hk hd ha (.dynany src other) none hwf (fun h' he _ => ?_) (fun u hu => by cases hu)
      (fun _ => hk.empty src y other hy ho hq) fun hr he => ?_
    · rw [Source.value, if_neg (hnot he), hq]
    · rcases hr he with hi | ⟨n, hn, hlt⟩
      · exact .inl hi
      · refine .inr ⟨n, hlt, fun h' value' hhold => ?_⟩
        exact (copied_count hk hy ho (fun q hv => by cases hq.symm.trans hv) hhold).trans hn
  | some q =>
    obtain ⟨u, hu, ht⟩ := hk.read (hk.stands src y other q hy ho hq)
    refine fromAny_good hk hd ha (.dynany src other) (some u) hwf (fun h' he hblocks => ?_)
      (fun w hw => by cases hw; exact ht) (fun hn => by cases hn) fun hr he => ?_
    · have hread : h'.read q = .ok u := by
        rcases hblocks q.block with hb | ⟨hroot, w, hw, hb⟩
        · rw [Heap.read, hb]
          exact hu
        · exact absurd hb ((hs he (hk.root d x a hd ha hroot).1).2 w q hw hq)
      rw [Source.value, if_neg (hnot he), hq]
      simp only [hread]
      rfl
    · rcases hr he with hi | ⟨n, hn, hlt⟩
      · exact .inl hi
      · refine .inr ⟨n, hlt, fun h' value' hhold => ?_⟩
        refine (copied_count hk hy ho (fun p hv => ?_) hhold).trans hn
        cases hq.symm.trans hv
        exact ⟨u, hu, rfl⟩

/-- `DynamicAny_DynAny_copy` of a child finds the cursor of the parent at it. -/
def Placed (h : Heap) (x : DynAny) (a : CorbaAny) : Prop :=
  ∀ p y other, x.parent = some p → h.dynanys p = some y → y.any = some other →
    getValue h other y.idx = .ok a.value

theorem copy_good {h : Heap} (hk : Kept h) {d : Nat} {x : DynAny} {a : CorbaAny}
    (hd : h.dynanys d = some x) (ha : x.any = some a) (hp : Placed h x a) :
    Leaves (Good h (∃ n, componentCount h a = .ok n ∧ 0 < n)) (copy h x a) := by
  have hwf := hk.wellFormed d x a hd ha
  unfold copy
  cases hpar : x.parent with
  | some p =>
    obtain ⟨y, hy, -⟩ := hk.back d x p hd hpar
    obtain ⟨other, v, ho, hv, -⟩ := hk.child d x a p y hd ha hpar hy
    have hg := hp p y other hpar hy ho
    rw [hv] at hg ⊢
    have hcount : componentCount h ⟨a.type, some v, false⟩ = componentCount h a := by
      simp only [componentCount, hv]
    refine newChild_good hk hy ho (hk.stands d x a v hd ha hv) hwf hg fun hr => ?_
    rw [hcount]
    exact hr
  | none =>
    cases hv : a.value with
    | none =>
      refine createRoot_good hk hwf (fun v hn => by cases hn) fun hr h' value' hhold => ?_
      obtain ⟨n, hn, hpos⟩ := hr
      refine ⟨n, ?_, hpos⟩
      exact (copied_count (v := none) hk hd ha (fun q hq => by cases hv.symm.trans hq)
        fun u hu => by cases hu).trans hn
    | some v =>
      obtain ⟨u, hu, ht⟩ := hk.read (hk.stands d x a v hd ha hv)
      simp only [hu, bind, Except.bind]
      refine createRoot_good hk hwf (fun w hw => by cases hw; exact ht) fun hr h' value' hhold => ?_
      obtain ⟨n, hn, hpos⟩ := hr
      refine ⟨n, (copied_count (v := some u) hk hd ha (fun q hq => ?_) fun w hw => ?_).trans hn, hpos⟩
      · cases hv.symm.trans hq
        exact ⟨u, hu, rfl⟩
      · cases hw
        exact hhold

/-- A condition on the object of a call, where the client has it and it has its any. -/
def OnAny (h : Heap) (d : Nat) (P : DynAny → CorbaAny → Prop) : Prop :=
  ∀ x a, h.dynanys d = some x → x.any = some a → P x a

/-- The calls that use nothing freed and leave links and places in order. -/
def Careful (h : Heap) : Event → Prop
  | .currentComponent d => OnAny h d fun x a => 0 ≤ x.idx → HasRoom a
  | .insert d b _ => OnAny h d fun x a => Reaches x a b
  | .get d b => OnAny h d fun x a => Reaches x a b
  | .setLength d length => OnAny h d fun _ a => Resizes h a length
  | .setElements d value => OnAny h d fun _ a => Refills h d a value
  | .setMembers d value => OnAny h d fun _ a => Remembers h d a value
  | .assign dest src => OnAny h src fun _ other => OnAny h dest fun _ a => Spares dest a src other
  | .copy d => OnAny h d fun x a => Placed h x a
  | .release d => ∀ x, h.dynanys d = some x → x.parent = none
  | _ => True

/-- The calls that leave every cursor at a component there is. -/
def Ranging (h : Heap) : Event → Prop
  | .createDynAny value => 0 < count value.value
  | .createFromTypeCode type => 0 < count (initDefault type.1)
  | .seek d index => OnAny h d fun _ a =>
      a.type.skipAlias.kind = .union → long index ≠ 0 ∧ long index ≠ 1
  | .next d => OnAny h d fun x a =>
      a.type.skipAlias.kind = .union → long (x.idx + 1) ≠ 0 ∧ long (x.idx + 1) ≠ 1
  | .rewind d => OnAny h d fun _ a => a.type.skipAlias.kind ≠ .union
  | .currentComponent d => OnAny h d fun x a => ∀ tc v, getCurType a x.idx = some tc →
      getValue h a x.idx = .ok (some v) →
        ∃ n, componentCount h ⟨tc, some v, false⟩ = .ok n ∧ 0 < n
  | .setElements d value => OnAny h d fun _ a => RefillsInRange h d a value
  | .setMembers d value => OnAny h d fun _ a => RemembersInRange h d a value
  | .fromAny d value => OnAny h d fun x a => a.type.equal value.type = some true →
      x.idx = -1 ∨ 0 < count value.value ∧ x.idx < count value.value
  | .assign dest src => OnAny h src fun _ other => OnAny h dest fun x a =>
      a.type.equal other.type = some true →
        x.idx = -1 ∨ ∃ n, componentCount h other = .ok n ∧ x.idx < n
  | .copy d => OnAny h d fun _ a => ∃ n, componentCount h a = .ok n ∧ 0 < n
  | _ => True

theorem Leaves.imp {P Q : Heap → Prop} (hPQ : ∀ h, P h → Q h) {r : Except Stop (Answer × Heap)}
    (h : Leaves P r) : Leaves Q r := by
  cases r with
  | error => exact h
  | ok r => exact hPQ r.2 h

theorem Good.weaken {R R' : Prop} (hR : R' → R) {h h' : Heap} (hg : Good h R h') : Good h R' h' :=
  ⟨hg.1, fun hr => hg.2 (hR hr)⟩

/-- A call on an object. -/
theorem onAny_good {h : Heap} (hk : Kept h) {d : Nat} {R R' : DynAny → CorbaAny → Prop}
    {f : DynAny → CorbaAny → Except Stop (Answer × Heap)} (hR : OnAny h d R')
    (hf : ∀ x a, h.dynanys d = some x → x.any = some a → R' x a →
      Leaves (Good h (R x a)) (f x a)) :
    Leaves (Good h (OnAny h d R)) (onAny h d f) := by
  unfold onAny
  cases hd : h.dynanys d with
  | none => exact good_same hk _
  | some x =>
    cases ha : x.any with
    | none =>
      simp only [ha]
      exact good_same hk _
    | some a =>
      simp only [ha]
      exact (hf x a hd ha (hR x a hd ha)).imp fun _ => Good.weaken fun hr => hr x a hd ha

theorem onAny_true (h : Heap) (d : Nat) : OnAny h d fun _ _ => True := fun _ _ _ _ => trivial

/-- A client's value is copied when it is where a value can be. -/
theorem createRoot_client_good {h : Heap} (hk : Kept h) (value : ClientAny) :
    Leaves (Good h (0 < count value.value)) (createRoot h value.type
      (if value.type.gatherAllocInfo = 0 then none else some value.value)) := by
  by_cases hz : value.type.gatherAllocInfo = 0
  · rw [if_pos hz]
    exact createRoot_good hk value.wellFormed (fun v hv => by cases hv) fun hpos h' value' _ =>
      ⟨_, componentCount_client hpos fun hne => absurd hz hne, hpos⟩
  · rw [if_neg hz]
    exact createRoot_good hk value.wellFormed (fun v hv => by cases hv; exact value.typed)
      fun hpos h' value' hhold => ⟨_, componentCount_client hpos fun _ => hhold, hpos⟩

theorem createRoot_default_good {h : Heap} (hk : Kept h) (type : { tc // CTypeCode.wellFormed tc = true }) :
    Leaves (Good h (0 < count (initDefault type.1))) (createRoot h type.1 none) := by
  refine createRoot_good hk type.2 (fun v hv => by cases hv) fun hpos h' value' hhold => ?_
  exact ⟨_, componentCount_of_hasType (hasType_initDefault type.1 type.2) hpos hhold, hpos⟩

theorem call_good {h : Heap} (hk : Kept h) {e : Event} (hc : Careful h e) :
    Leaves (Good h (Ranging h e)) (call h e) := by
  cases e with
  | createDynAny value => exact createRoot_client_good hk value
  | createFromTypeCode type => exact createRoot_default_good hk type
  | seek d index =>
    exact onAny_good hk (onAny_true h d) fun x a hd ha _ => seekTo_good hk hd ha index
  | next d =>
    exact onAny_good hk (onAny_true h d) fun x a hd ha _ => seekTo_good hk hd ha (x.idx + 1)
  | rewind d =>
    refine onAny_good hk (onAny_true h d) fun x a hd ha _ => ?_
    exact (seekTo_good hk hd ha 0).imp fun _ => Good.weaken fun hne hu => absurd hu hne
  | currentComponent d =>
    exact onAny_good hk hc fun x a hd ha hroom => currentComponent_good hk hd ha hroom fun hr => hr
  | insert d b content =>
    refine (onAny_good hk (R := fun _ _ => True) hc fun x a hd ha hr => ?_).imp
      fun _ => Good.weaken fun _ => onAny_true h d
    exact insert_good hk hd ha hr content True
  | get d b =>
    refine (onAny_good hk (R := fun _ _ => True) hc fun x a hd ha hr => ?_).imp
      fun _ => Good.weaken fun _ => onAny_true h d
    exact get_good hk hd ha hr True
  | setLength d length =>
    refine (onAny_good hk (R := fun _ _ => True) hc fun x a hd ha hr => ?_).imp
      fun _ => Good.weaken fun _ => onAny_true h d
    exact setLength_good hk hd ha hr True
  | setElements d value =>
    exact onAny_good hk hc fun x a hd ha hr => setElements_good hk hd ha hr
  | setMembers d value =>
    exact onAny_good hk hc fun x a hd ha hr => setMembers_good hk hd ha hr
  | fromAny d value =>
    exact onAny_good hk (onAny_true h d) fun x a hd ha _ => fromAny_client_good hk hd ha value
  | assign dest src =>
    unfold call
    cases hy : h.dynanys src with
    | none =>
      simp only [hy]
      exact good_same hk _
    | some y =>
      cases ho : y.any with
      | none =>
        simp only [hy, ho]
        exact good_same hk _
      | some other =>
        simp only [hy, ho]
        have hgood := onAny_good hk (hc y other hy ho) fun x a hd ha hs =>
          assign_good hk hd ha hy ho hs
        exact hgood.imp fun _ => Good.weaken fun hr => hr y other hy ho
  | copy d => exact onAny_good hk hc fun x a hd ha hp => copy_good hk hd ha hp
  | release d =>
    unfold call
    cases hd : h.dynanys d with
    | none =>
      simp only [hd]
      exact good_same hk _
    | some x =>
      obtain ⟨h₁, h', hr, hp, hk₁, hs⟩ := release_ok hk hd (hc x hd)
      simp only [hd, hr, bind, Except.bind]
      exact ⟨hk₁.shrink hs, fun _ hall => hs.ranged hk₁ (ranged_pruned hp hall)⟩

/-- What is promised of links: the list of a parent and the fields of its children agree, and a child
points at the component of its parent that its index names. -/
structure Linked (h : Heap) : Prop where
  listed : ∀ d x a p y, h.dynanys d = some x → x.any = some a → h.dynanys p = some y →
    (d ∈ y.children ↔ x.parent = some p)
  placed : ∀ d x a p, h.dynanys d = some x → x.any = some a → x.parent = some p →
    ∃ y other v, h.dynanys p = some y ∧ y.any = some other ∧ a.value = some v ∧
      getValue h other x.parentIdx = .ok (some v)

/-- The program runs and `P` holds, or an assertion has ended it. -/
def Safe (P : Heap → Prop) : Except Stop Heap → Prop
  | .ok h => P h
  | .error r => r = .aborted

/-- A call in a program that runs. -/
def While (C : Heap → Event → Prop) (s : Except Stop Heap) (e : Event) : Prop :=
  ∀ h, s = .ok h → C h e

theorem Kept.linked {h : Heap} (hk : Kept h) : Linked h := by
  refine ⟨fun d x a p y hd ha hp => ⟨fun hmem => ?_, fun hpar => ?_⟩, fun d x a p hd ha hpar => ?_⟩
  · obtain ⟨x', -, hx', hpar, -⟩ := hk.listed p y d hp hmem
    cases hd.symm.trans hx'
    exact hpar
  · obtain ⟨y', hy', hmem⟩ := hk.back d x p hd hpar
    cases hp.symm.trans hy'
    exact hmem
  · obtain ⟨y, hy, -⟩ := hk.back d x p hd hpar
    obtain ⟨other, v, ho, hv, hg⟩ := hk.child d x a p y hd ha hpar hy
    exact ⟨y, other, v, hy, ho, hv, hg⟩

theorem step_kept {s : Except Stop Heap} {e : Event} (hs : Safe Kept s) (hc : While Careful s e) :
    Safe Kept (step s e) := by
  cases s with
  | error r => exact hs
  | ok h =>
    have hcall := call_good hs (hc h rfl)
    rw [step]
    cases hr : call h e with
    | error r =>
      rw [hr] at hcall
      exact hcall
    | ok r =>
      rw [hr] at hcall
      exact hcall.1

theorem step_ranged {s : Except Stop Heap} {e : Event} (hs : Safe (fun h => Kept h ∧ Ranged h) s)
    (hc : While (fun h e => Careful h e ∧ Ranging h e) s e) :
    Safe (fun h => Kept h ∧ Ranged h) (step s e) := by
  cases s with
  | error r => exact hs
  | ok h =>
    obtain ⟨hcareful, hranging⟩ := hc h rfl
    have hcall := call_good hs.1 hcareful
    rw [step]
    cases hr : call h e with
    | error r =>
      rw [hr] at hcall
      exact hcall
    | ok r =>
      rw [hr] at hcall
      exact ⟨hcall.1, hcall.2 hranging hs.2⟩

theorem Safe.imp {P Q : Heap → Prop} (hPQ : ∀ h, P h → Q h) {s : Except Stop Heap}
    (h : Safe P s) : Safe Q s := by
  cases s with
  | error => exact h
  | ok g => exact hPQ g h

theorem ranged_start : Ranged Heap.start := fun _ _ _ hd => by cases hd

/-- A struct in a struct. -/
def point : CTypeCode :=
  .node ⟨.struct, 1, "P".toList.map Char.toUInt8, "IDL:P:1.0".toList.map Char.toUInt8,
    ["x".toList.map Char.toUInt8], [], -1, 0, 0⟩ [.basic .long] none

def line : CTypeCode :=
  .node ⟨.struct, 1, "L".toList.map Char.toUInt8, "IDL:L:1.0".toList.map Char.toUInt8,
    ["p".toList.map Char.toUInt8], [], -1, 0, 0⟩ [point] none

def createLine : Event := .createFromTypeCode ⟨line, by decide⟩

end ORBit2.Dynamic
