import ORBit2.NamingLists

/-! Whatever is bound, rebound and unbound while lists are gone through: every entry is counted
right, and a list delivers what was there when it was made. -/

set_option autoImplicit false

namespace ORBit2
namespace NameServer

/-- What never changes of an entry. -/
def content (s : NameServer) (p : Nat) : Option (NameComponent × RegisteredName) :=
  (s.heap p).map fun e => (e.nc, e.name)

theorem binding_eq (s : NameServer) (p : Nat) :
    s.binding p = (s.content p).map fun c => ⟨c.1, c.2.isSubctx⟩ := by
  rw [binding, content, Option.map_map]
  rfl

theorem content_eq_none {s : NameServer} {p : Nat} : s.content p = none ↔ s.heap p = none := by
  rw [content, Option.map_eq_none_iff]

/-- The reference counts are right when `held` are references that local variables own. -/
structure Accounted (s : NameServer) (held : List Nat) : Prop where
  counted : ∀ p e, s.heap p = some e →
    e.refcount = (s.refs p + held.count p : Nat) ∧ 0 < s.refs p + held.count p
  dead : ∀ p, s.heap p = none → s.refs p + held.count p = 0
  fresh : ∀ p, s.next ≤ p → s.heap p = none
  freedOnce : ∀ p, s.freed.count p = if p < s.next ∧ s.heap p = none then 1 else 0
  names : s.names.Nodup
  keys : ∀ p ∈ s.names, ∀ q ∈ s.names,
    (s.content p).map Prod.fst = (s.content q).map Prod.fst → p = q

/-- What an operation on entries alone leaves as it was. -/
structure Moves (s s' : NameServer) : Prop where
  listings : s'.listings = s.listings
  next : s.next ≤ s'.next
  content : ∀ p, p < s.next → s'.heap p ≠ none → s'.content p = s.content p

theorem Moves.trans {s s' s'' : NameServer} (h : Moves s s') (h' : Moves s' s'') : Moves s s'' where
  listings := h'.listings.trans h.listings
  next := Nat.le_trans h.next h'.next
  content := by
    intro p hp hl
    have hc := h'.content p (Nat.lt_of_lt_of_le hp h.next) hl
    have hl' : s'.heap p ≠ none := by
      rw [Ne, ← content_eq_none, ← hc, content_eq_none]
      exact hl
    rw [hc, h.content p hp hl']

section
variable {s s' : NameServer} {held held' items : List Nat} {p : Nat}

theorem Accounted.live (h : s.Accounted held) (hp : 0 < s.refs p + held.count p) :
    ∃ e, s.heap p = some e := by
  cases he : s.heap p with
  | none =>
    have hz := h.dead p he
    omega
  | some e => exact ⟨e, rfl⟩

theorem Accounted.live_held (h : s.Accounted held) (hp : p ∈ held) : ∃ e, s.heap p = some e := by
  have hc := List.count_pos_iff.2 hp
  exact h.live (by omega)

theorem Accounted.live_name (h : s.Accounted held) (hp : p ∈ s.names) :
    ∃ e, s.heap p = some e := by
  have hc := List.count_pos_iff.2 hp
  exact h.live (by unfold refs; omega)

theorem Accounted.lt_next (h : s.Accounted held) {e : RegisteredEntry} (he : s.heap p = some e) :
    p < s.next := by
  by_contra hn
  rw [h.fresh p (by omega)] at he
  cases he

/-- Only the numbers of references count. -/
theorem Accounted.congr (h : s.Accounted held) (hc : ∀ p, held'.count p = held.count p) :
    s.Accounted held' := by
  refine ⟨?_, ?_, h.fresh, h.freedOnce, h.names, h.keys⟩
  · intro p e he
    rw [hc]
    exact h.counted p e he
  · intro p he
    rw [hc]
    exact h.dead p he

theorem content_setRefcount {e : RegisteredEntry} (he : s.heap p = some e) (n : Int) :
    (s.setEntry p (some { e with refcount := n })).content = s.content := by
  funext q
  by_cases hq : q = p
  · subst hq
    simp [content, setEntry, he]
  · simp [content, setEntry, Function.update_of_ne hq]

/-- A reference count that is set to what it has to be. -/
theorem Accounted.setRefcount (h : s.Accounted held) {e : RegisteredEntry}
    (he : s.heap p = some e) {n : Int} (hn : n = (s.refs p + held'.count p : Nat))
    (hpos : 0 < s.refs p + held'.count p) (hother : ∀ q, q ≠ p → held'.count q = held.count q) :
    (s.setEntry p (some { e with refcount := n })).Accounted held' := by
  constructor
  case counted =>
    intro q e' he'
    by_cases hq : q = p
    · subst hq
      simp only [setEntry, Function.update_self, Option.some.injEq] at he'
      subst he'
      exact ⟨hn, hpos⟩
    · simp only [setEntry, Function.update_of_ne hq] at he'
      rw [hother q hq]
      exact h.counted q e' he'
  case dead =>
    intro q hq
    have hqp : q ≠ p := by
      rintro rfl
      simp [setEntry] at hq
    simp only [setEntry, Function.update_of_ne hqp] at hq
    rw [hother q hqp]
    exact h.dead q hq
  case fresh =>
    intro q hq
    have hlt := h.lt_next he
    have hqp : q ≠ p := by
      rintro rfl
      exact absurd hlt (by simpa [setEntry] using hq)
    simpa [setEntry, Function.update_of_ne hqp] using h.fresh q hq
  case freedOnce =>
    intro q
    have hf := h.freedOnce q
    by_cases hqp : q = p
    · subst hqp
      simpa [setEntry, he] using hf
    · simpa [setEntry, Function.update_of_ne hqp] using hf
  case names => exact h.names
  case keys =>
    intro q hq r hr hk
    rw [content_setRefcount he] at hk
    exact h.keys q hq r hr hk

theorem rnRef_spec (h : s.Accounted held) {e : RegisteredEntry} (he : s.heap p = some e) :
    ∃ s', s.rnRef p = some s' ∧ s'.Accounted (p :: held) ∧ Moves s s' ∧ s'.names = s.names ∧
      s'.content = s.content := by
  obtain ⟨hcount, hpos⟩ := h.counted p e he
  have hcontent := content_setRefcount he (e.refcount + 1)
  refine ⟨s.setEntry p (some { e with refcount := e.refcount + 1 }), ?_, ?_, ?_, rfl, hcontent⟩
  · rw [rnRef, he]
    rfl
  · refine h.setRefcount he ?_ (by rw [List.count_cons_self]; omega) ?_
    · rw [hcount, List.count_cons_self]
      push_cast
      omega
    · intro q hq
      exact List.count_cons_of_ne hq.symm
  · exact ⟨rfl, Nat.le_refl _, fun q _ _ => by rw [hcontent]⟩

/-- The last reference is given back. -/
theorem Accounted.free (h : s.Accounted (p :: held)) (hz : s.refs p + held.count p = 0) :
    NameServer.Accounted { s.setEntry p none with freed := p :: s.freed } held := by
  obtain ⟨e, he⟩ := h.live_held List.mem_cons_self
  have hlt := h.lt_next he
  have hother : ∀ q, q ≠ p → (p :: held).count q = held.count q :=
    fun q hq => List.count_cons_of_ne hq.symm
  constructor
  case counted =>
    intro q e' he'
    have hqp : q ≠ p := by
      rintro rfl
      simp [setEntry] at he'
    simp only [setEntry, Function.update_of_ne hqp] at he'
    have hc := h.counted q e' he'
    rwa [hother q hqp] at hc
  case dead =>
    intro q hq
    by_cases hqp : q = p
    · subst hqp
      exact hz
    · simp only [setEntry, Function.update_of_ne hqp] at hq
      have hd := h.dead q hq
      rwa [hother q hqp] at hd
  case fresh =>
    intro q hq
    by_cases hqp : q = p
    · subst hqp
      simp [setEntry]
    · simpa [setEntry, Function.update_of_ne hqp] using h.fresh q hq
  case freedOnce =>
    intro q
    have hf := h.freedOnce q
    by_cases hqp : q = p
    · subst hqp
      rw [he] at hf
      simp only [reduceCtorEq, and_false, if_false] at hf
      simp [setEntry, List.count_cons_self, hf, hlt]
    · simpa [setEntry, Function.update_of_ne hqp, List.count_cons_of_ne (Ne.symm hqp)] using hf
  case names => exact h.names
  case keys =>
    intro q hq r hr hk
    have hne : ∀ t ∈ s.names, t ≠ p := by
      rintro t ht rfl
      have hc := List.count_pos_iff.2 ht
      unfold refs at hz
      omega
    refine h.keys q hq r hr ?_
    simpa [content, setEntry, Function.update_of_ne (hne q hq),
      Function.update_of_ne (hne r hr)] using hk

theorem rnUnref_spec (h : s.Accounted (p :: held)) :
    ∃ s', s.rnUnref p = some s' ∧ s'.Accounted held ∧ Moves s s' ∧ s'.names = s.names := by
  obtain ⟨e, he⟩ := h.live_held List.mem_cons_self
  obtain ⟨hcount, -⟩ := h.counted p e he
  rw [List.count_cons_self] at hcount
  by_cases hz : e.refcount - 1 ≤ 0
  · refine ⟨{ s.setEntry p none with freed := p :: s.freed }, ?_, h.free (by omega), ?_, rfl⟩
    · rw [rnUnref, he]
      exact if_pos hz
    · refine ⟨rfl, Nat.le_refl _, fun q _ hq => ?_⟩
      have hqp : q ≠ p := by
        rintro rfl
        simp [setEntry] at hq
      simp [content, setEntry, Function.update_of_ne hqp]
  · refine ⟨s.setEntry p (some { e with refcount := e.refcount - 1 }), ?_, ?_, ?_, rfl⟩
    · rw [rnUnref, he]
      exact if_neg hz
    · refine h.setRefcount he ?_ (by omega) fun q hq => (List.count_cons_of_ne hq.symm).symm
      rw [hcount]
      push_cast
      omega
    · exact ⟨rfl, Nat.le_refl _, fun q _ _ => by rw [content_setRefcount he]⟩

/-! ### Going through lists -/

theorem refAll_spec (h : s.Accounted held) (hl : ∀ p ∈ items, s.heap p ≠ none) :
    ∃ s', s.refAll items = some s' ∧ s'.Accounted (items ++ held) ∧ Moves s s' ∧
      s'.names = s.names ∧ s'.content = s.content := by
  induction items generalizing s held with
  | nil => exact ⟨s, rfl, h, ⟨rfl, Nat.le_refl _, fun _ _ _ => rfl⟩, rfl, rfl⟩
  | cons p items ih =>
    obtain ⟨e, he⟩ := Option.ne_none_iff_exists'.1 (hl p List.mem_cons_self)
    obtain ⟨s', hs', ha, hm, hn, hc⟩ := rnRef_spec h he
    have hl' : ∀ q ∈ items, s'.heap q ≠ none := by
      intro q hq
      rw [Ne, ← content_eq_none, hc, content_eq_none]
      exact hl q (List.mem_cons_of_mem _ hq)
    obtain ⟨s'', hs'', ha', hm', hn', hc'⟩ := ih ha hl'
    refine ⟨s'', ?_, ha'.congr fun q => ?_, hm.trans hm', hn'.trans hn, hc'.trans hc⟩
    · rw [refAll, hs']
      exact hs''
    · simp only [List.cons_append, List.count_cons, List.count_append]
      omega

theorem unrefAll_spec (h : s.Accounted (items ++ held)) :
    ∃ s', s.unrefAll items = some s' ∧ s'.Accounted held ∧ Moves s s' ∧ s'.names = s.names := by
  induction items generalizing s with
  | nil => exact ⟨s, rfl, h, ⟨rfl, Nat.le_refl _, fun _ _ _ => rfl⟩, rfl⟩
  | cons p items ih =>
    obtain ⟨s', hs', ha, hm, hn⟩ := rnUnref_spec h
    obtain ⟨s'', hs'', ha', hm', hn'⟩ := ih ha
    refine ⟨s'', ?_, ha', hm.trans hm', hn'.trans hn⟩
    rw [unrefAll, hs']
    exact hs''

theorem Moves.binding (h : Moves s s') (ha : s.Accounted held) (hl : s'.heap p ≠ none)
    (hs : s.heap p ≠ none) : s'.binding p = s.binding p := by
  obtain ⟨e, he⟩ := Option.ne_none_iff_exists'.1 hs
  rw [binding_eq, binding_eq, h.content p (ha.lt_next he) hl]

/-- The bindings are those of the items that are taken off. -/
theorem namesIntoBindinglist_spec {n : Nat} (h : s.Accounted (items ++ held))
    (hn : n ≤ items.length) :
    ∃ s' bl, s.namesIntoBindinglist n items = some (s', bl, items.drop n) ∧
      s'.Accounted (items.drop n ++ held) ∧ Moves s s' ∧ s'.names = s.names ∧
      bl.map some = (items.take n).map s.binding := by
  induction n generalizing s items with
  | zero =>
    refine ⟨s, [], ?_, by simpa using h, ⟨rfl, Nat.le_refl _, fun _ _ _ => rfl⟩, rfl, by simp⟩
    simp [namesIntoBindinglist]
  | succ n ih =>
    cases items with
    | nil => simp at hn
    | cons p items =>
      obtain ⟨e, he⟩ := h.live_held (p := p) (by simp)
      obtain ⟨s', hs', ha, hm, hnames⟩ := rnUnref_spec h
      obtain ⟨s'', bl, hs'', ha', hm', hnames', hbl⟩ := ih ha (by simpa using hn)
      have hb : s.binding p = some ⟨e.nc, e.name.isSubctx⟩ := by rw [NameServer.binding, he]; rfl
      refine ⟨s'', ⟨e.nc, e.name.isSubctx⟩ :: bl, ?_, ha', hm.trans hm', hnames'.trans hnames, ?_⟩
      · rw [namesIntoBindinglist, hb, hs']
        simp [hs'']
      · rw [List.map_cons, hbl, List.take_succ_cons, List.map_cons, hb]
        congr 1
        refine List.map_congr_left fun q hq => ?_
        have hmem : q ∈ items ++ held := List.mem_append_left _ (List.mem_of_mem_take hq)
        obtain ⟨e', he'⟩ := ha.live_held hmem
        obtain ⟨e'', he''⟩ := h.live_held (List.mem_cons_of_mem p hmem)
        exact hm.binding h (by simp [he']) (by simp [he''])

/-! ### The table -/

theorem lookup_spec (nc : NameComponent) {ps : List Nat} (hl : ∀ p ∈ ps, s.heap p ≠ none) :
    (∃ p ∈ ps, s.lookup nc ps = some (some p) ∧ (s.content p).map Prod.fst = some nc) ∨
      s.lookup nc ps = some none ∧ ∀ p ∈ ps, (s.content p).map Prod.fst ≠ some nc := by
  induction ps with
  | nil => exact .inr ⟨rfl, by simp⟩
  | cons p ps ih =>
    obtain ⟨e, he⟩ := Option.ne_none_iff_exists'.1 (hl p List.mem_cons_self)
    have hk : (s.content p).map Prod.fst = some e.nc := by rw [content, he]; rfl
    by_cases hnc : e.nc = nc
    · refine .inl ⟨p, List.mem_cons_self, ?_, by rw [hk, hnc]⟩
      rw [lookup, he]
      simp [hnc]
    · have hstep : s.lookup nc (p :: ps) = s.lookup nc ps := by
        rw [lookup, he]
        simp [hnc]
      rcases ih fun q hq => hl q (List.mem_cons_of_mem _ hq) with ⟨q, hq, hs, hkq⟩ | ⟨hs, hall⟩
      · exact .inl ⟨q, List.mem_cons_of_mem _ hq, hstep.trans hs, hkq⟩
      · refine .inr ⟨hstep.trans hs, List.forall_mem_cons.2 ⟨?_, hall⟩⟩
        rw [hk]
        simpa using hnc

theorem Accounted.live_names (h : s.Accounted held) : ∀ p ∈ s.names, s.heap p ≠ none := by
  intro p hp
  obtain ⟨e, he⟩ := h.live_name hp
  simp [he]

/-- Keys that are looked up later are those that were there. -/
theorem Moves.key (h : Moves s s') (ha : s.Accounted held) (hl : s'.heap p ≠ none)
    (hs : s.heap p ≠ none) : s'.content p = s.content p := by
  obtain ⟨e, he⟩ := Option.ne_none_iff_exists'.1 hs
  exact h.content p (ha.lt_next he) hl

theorem remove_spec (h : s.Accounted []) (hp : p ∈ s.names) :
    ∃ s', s.remove p = some s' ∧ s'.Accounted [] ∧ Moves s s' ∧ s'.names = s.names.erase p := by
  have hcount : ∀ q, (s.names.erase p).count q + [p].count q = s.names.count q := by
    intro q
    rw [List.count_erase, List.count_singleton]
    have hpos := List.count_pos_iff.2 hp
    by_cases hq : p = q
    · subst hq
      simp only [beq_self_eq_true, if_true]
      omega
    · have hne : (p == q) = false := by simpa using hq
      simp [hne]
  have hrefs : ∀ q, NameServer.refs { s with names := s.names.erase p } q + [p].count q =
      s.refs q + [].count q := by
    intro q
    have hc := hcount q
    simp only [refs, List.count_nil]
    omega
  have he : NameServer.Accounted { s with names := s.names.erase p } [p] := by
    refine ⟨?_, ?_, h.fresh, h.freedOnce, h.names.erase p, ?_⟩
    · intro q e he
      rw [hrefs]
      exact h.counted q e he
    · intro q hq
      rw [hrefs]
      exact h.dead q hq
    · intro q hq r hr
      exact h.keys q (List.mem_of_mem_erase hq) r (List.mem_of_mem_erase hr)
  obtain ⟨s', hs', ha, hm, hn⟩ := rnUnref_spec he
  exact ⟨s', hs', ha, ⟨hm.listings, hm.next, hm.content⟩, hn⟩

theorem insert_spec {nc : NameComponent} (name : RegisteredName) (h : s.Accounted [])
    (hk : ∀ p ∈ s.names, (s.content p).map Prod.fst ≠ some nc) :
    ∃ s', s.insert nc name = some s' ∧ s'.Accounted [] ∧ Moves s s' := by
  have hdead : s.heap s.next = none := h.fresh _ (Nat.le_refl _)
  have hz := h.dead s.next hdead
  have hnot : s.next ∉ s.names := by
    intro hmem
    have hc := List.count_pos_iff.2 hmem
    unfold refs at hz
    omega
  refine ⟨{ s with
    heap := Function.update s.heap s.next (some ⟨nc, name, 1⟩), next := s.next + 1,
    names := s.next :: s.names }, ?_, ?_, ⟨rfl, Nat.le_succ _, ?_⟩⟩
  · simp [insert, rnRef, setEntry]
  · have hcontent : ∀ q ∈ s.names, NameServer.content { s with
        heap := Function.update s.heap s.next (some ⟨nc, name, 1⟩), next := s.next + 1,
        names := s.next :: s.names } q = s.content q := by
      intro q hq
      have hne : q ≠ s.next := by
        rintro rfl
        exact hnot hq
      simp [content, Function.update_of_ne hne]
    have hnew : (NameServer.content { s with
        heap := Function.update s.heap s.next (some ⟨nc, name, 1⟩), next := s.next + 1,
        names := s.next :: s.names } s.next).map Prod.fst = some nc := by simp [content]
    constructor
    case counted =>
      intro q e he
      by_cases hq : q = s.next
      · subst hq
        simp only [Function.update_self, Option.some.injEq] at he
        subst he
        simp only [refs, List.count_cons_self, List.count_nil] at hz ⊢
        constructor
        · push_cast
          omega
        · omega
      · simp only [Function.update_of_ne hq] at he
        have hc := h.counted q e he
        simp only [refs, List.count_cons_of_ne (Ne.symm hq)] at hc ⊢
        exact hc
    case dead =>
      intro q hq
      have hne : q ≠ s.next := by
        rintro rfl
        simp at hq
      simp only [Function.update_of_ne hne] at hq
      have hd := h.dead q hq
      simp only [refs, List.count_cons_of_ne (Ne.symm hne)] at hd ⊢
      exact hd
    case fresh =>
      intro q hq
      have hne : q ≠ s.next := by
        rintro rfl
        exact absurd hq (by simp)
      simp only [Function.update_of_ne hne]
      exact h.fresh q (by simp only at hq; omega)
    case freedOnce =>
      intro q
      have hf := h.freedOnce q
      by_cases hq : q = s.next
      · subst hq
        simpa using hf
      · simp only [Function.update_of_ne hq]
        rw [hf]
        have hiff : q < s.next + 1 ↔ q < s.next := by omega
        simp [hiff]
    case names => exact List.nodup_cons.2 ⟨hnot, h.names⟩
    case keys =>
      intro q hq r hr hqr
      rcases List.mem_cons.1 hq with rfl | hq <;> rcases List.mem_cons.1 hr with rfl | hr
      · rfl
      · rw [hnew, hcontent r hr] at hqr
        exact absurd hqr.symm (hk r hr)
      · rw [hnew, hcontent q hq] at hqr
        exact absurd hqr (hk q hq)
      · rw [hcontent q hq, hcontent r hr] at hqr
        exact h.keys q hq r hr hqr
  · intro q hq _
    have hne : q ≠ s.next := by omega
    simp [content, Function.update_of_ne hne]

/-- With its name removed a component is free. -/
theorem removed_key (h : s.Accounted []) (hm : Moves s s') (ha : s'.Accounted [])
    {nc : NameComponent} (hp : p ∈ s.names) (hk : (s.content p).map Prod.fst = some nc)
    (hn : s'.names = s.names.erase p) : ∀ q ∈ s'.names, (s'.content q).map Prod.fst ≠ some nc := by
  intro q hq hqk
  have hlive := ha.live_names q hq
  rw [hn, h.names.mem_erase_iff] at hq
  rw [hm.key h hlive (h.live_names q hq.2)] at hqk
  exact hq.1 (h.keys q hq.2 p hp (hqk.trans hk.symm))

theorem unbind_spec (nc : NameComponent) (h : s.Accounted []) :
    ∃ s', s.unbind nc = some s' ∧ s'.Accounted [] ∧ Moves s s' ∧
      ∀ q ∈ s'.names, (s'.content q).map Prod.fst ≠ some nc := by
  rcases lookup_spec nc h.live_names with ⟨p, hp, hs, hk⟩ | ⟨hs, hall⟩
  · obtain ⟨s', hs', ha, hm, hn⟩ := remove_spec h hp
    refine ⟨s', ?_, ha, hm, removed_key h hm ha hp hk hn⟩
    rw [unbind, hs]
    exact hs'
  · refine ⟨s, ?_, h, ⟨rfl, Nat.le_refl _, fun _ _ _ => rfl⟩, hall⟩
    rw [unbind, hs]
    rfl

theorem bind_spec (nc : NameComponent) (name : RegisteredName) (gone : Bool)
    (h : s.Accounted []) : ∃ s', s.bind nc name gone = some s' ∧ s'.Accounted [] ∧ Moves s s' := by
  rcases lookup_spec nc h.live_names with ⟨p, hp, hs, hk⟩ | ⟨hs, hall⟩
  · cases gone with
    | false =>
      refine ⟨s, ?_, h, ⟨rfl, Nat.le_refl _, fun _ _ _ => rfl⟩⟩
      rw [bind, hs]
      rfl
    | true =>
      obtain ⟨s', hs', ha, hm, hkeys⟩ := unbind_spec nc h
      obtain ⟨s'', hs'', ha', hm'⟩ := insert_spec name ha hkeys
      refine ⟨s'', ?_, ha', hm.trans hm'⟩
      rw [bind, hs]
      simp only [Option.bind_eq_bind, Option.bind_some, if_true, hs']
      exact hs''
  · obtain ⟨s', hs', ha, hm⟩ := insert_spec name h hall
    refine ⟨s', ?_, ha, hm⟩
    rw [bind, hs]
    exact hs'

theorem rebind_spec (nc : NameComponent) (name : RegisteredName) (h : s.Accounted []) :
    ∃ s', s.rebind nc name = some s' ∧ s'.Accounted [] ∧ Moves s s' := by
  rcases lookup_spec nc h.live_names with ⟨p, hp, hs, hk⟩ | ⟨hs, hall⟩
  · obtain ⟨s', hs', ha, hm, hn⟩ := remove_spec h hp
    obtain ⟨s'', hs'', ha', hm'⟩ := insert_spec name ha (removed_key h hm ha hp hk hn)
    refine ⟨s'', ?_, ha', hm.trans hm'⟩
    rw [rebind, hs]
    simp only [Option.bind_eq_bind, Option.bind_some, hs']
    exact hs''
  · obtain ⟨s', hs', ha, hm⟩ := insert_spec name h hall
    refine ⟨s', ?_, ha, hm⟩
    rw [rebind, hs]
    exact hs'

/-! ### The calls of list -/

theorem count_set {ls : List Listing} {i : Nat} {l : Listing} (l' : Listing)
    (hl : ls[i]? = some l) (p : Nat) :
    ((ls.set i l').map Listing.items).flatten.count p + l.items.count p =
      (ls.map Listing.items).flatten.count p + l'.items.count p := by
  induction ls generalizing i with
  | nil => simp at hl
  | cons k ls ih =>
    cases i with
    | zero =>
      simp only [List.getElem?_cons_zero, Option.some.injEq] at hl
      subst hl
      simp only [List.set_cons_zero, List.map_cons, List.flatten_cons, List.count_append]
      omega
    | succ i =>
      have hi := ih (i := i) (by simpa using hl)
      simp only [List.set_cons_succ, List.map_cons, List.flatten_cons, List.count_append]
      omega

theorem Accounted.setListing (h : s.Accounted held) {i : Nat} {l l' : Listing}
    (hl : s.listings[i]? = some l)
    (hc : ∀ p, held'.count p + l'.items.count p = held.count p + l.items.count p) :
    (s.setListing i l').Accounted held' := by
  have hrefs : ∀ p, (s.setListing i l').refs p + held'.count p = s.refs p + held.count p := by
    intro p
    have hset := count_set l' hl p
    have hcp := hc p
    simp only [refs, NameServer.setListing]
    omega
  refine ⟨?_, ?_, h.fresh, h.freedOnce, h.names, h.keys⟩
  · intro p e he
    rw [hrefs]
    exact h.counted p e he
  · intro p hp
    rw [hrefs]
    exact h.dead p hp

/-- What a client has been told is what was there; unless it gives up, the items are the rest. -/
structure Told (s : NameServer) (l : Listing) : Prop where
  distinct : (l.present.map Binding.bindingName).Nodup
  complete : l.stopped = true → l.received = l.present
  rest : l.destroyed = false →
    l.received.map some ++ l.items.map s.binding = l.present.map some

structure Sound (s : NameServer) : Prop where
  accounted : s.Accounted []
  told : ∀ l ∈ s.listings, s.Told l

theorem Accounted.live_item (h : s.Accounted held) {l : Listing} (hl : l ∈ s.listings)
    (hp : p ∈ l.items) : s.heap p ≠ none := by
  have hmem : p ∈ (s.listings.map Listing.items).flatten :=
    List.mem_flatten.2 ⟨l.items, List.mem_map_of_mem hl, hp⟩
  have hc := List.count_pos_iff.2 hmem
  obtain ⟨e, he⟩ := h.live (p := p) (by unfold refs; omega)
  simp [he]

/-- Entries that are there before and after tell the same. -/
theorem Told.moves {l : Listing} (h : s.Told l) (hm : Moves s s') (ha : s.Accounted held)
    (hl : ∀ p ∈ l.items, s.heap p ≠ none) (hl' : ∀ p ∈ l.items, s'.heap p ≠ none) :
    s'.Told l := by
  refine ⟨h.distinct, h.complete, fun hd => ?_⟩
  rw [← h.rest hd]
  congr 1
  exact List.map_congr_left fun p hp => hm.binding ha (hl' p hp) (hl p hp)

/-- What is done to the table does not touch what clients are told. -/
theorem Sound.moves (h : s.Sound) (hm : Moves s s') (ha : s'.Accounted []) : s'.Sound := by
  refine ⟨ha, fun l hl => ?_⟩
  have hl₀ : l ∈ s.listings := hm.listings ▸ hl
  exact (h.told l hl₀).moves hm h.accounted (fun p hp => h.accounted.live_item hl₀ hp)
    (fun p hp => ha.live_item hl hp)

theorem Sound.right (h : s.Sound) : s.Right := by
  refine ⟨fun p => ?_, h.accounted.freedOnce, fun l hl => (h.told l hl).distinct,
    fun l hl => (h.told l hl).complete⟩
  constructor
  · intro hp
    obtain ⟨e, he⟩ := Option.isSome_iff_exists.1 hp
    simpa using (h.accounted.counted p e he).2
  · intro hp
    obtain ⟨e, he⟩ := h.accounted.live (by simpa using hp)
    simp [he]

/-- Entries of the table have different names. -/
theorem bindings_distinct (h : s.Accounted held) (hn : items.Nodup)
    (hsub : ∀ p ∈ items, p ∈ s.names) :
    ((items.filterMap s.binding).map Binding.bindingName).Nodup := by
  induction items with
  | nil => simp
  | cons p items ih =>
    obtain ⟨hp, hn⟩ := List.nodup_cons.1 hn
    obtain ⟨hpn, hsub⟩ := List.forall_mem_cons.1 hsub
    obtain ⟨e, he⟩ := h.live_name hpn
    have hb : s.binding p = some ⟨e.nc, e.name.isSubctx⟩ := by rw [NameServer.binding, he]; rfl
    rw [List.filterMap_cons_some hb, List.map_cons, List.nodup_cons]
    refine ⟨fun hmem => ?_, ih hn hsub⟩
    obtain ⟨b, hbm, hbe⟩ := List.mem_map.1 hmem
    obtain ⟨q, hq, hqb⟩ := List.mem_filterMap.1 hbm
    have hkey : (s.content p).map Prod.fst = (s.content q).map Prod.fst := by
      rw [binding_eq, Option.map_eq_some_iff] at hqb
      obtain ⟨c, hc, rfl⟩ := hqb
      rw [hc, content, he]
      exact congrArg some hbe.symm
    exact hp (h.keys p hpn q (hsub q hq) hkey ▸ hq)

theorem map_some_present (hl : ∀ p ∈ items, s.heap p ≠ none) :
    (items.filterMap s.binding).map some = items.map s.binding := by
  induction items with
  | nil => rfl
  | cons p items ih =>
    obtain ⟨hp, hl⟩ := List.forall_mem_cons.1 hl
    obtain ⟨e, he⟩ := Option.ne_none_iff_exists'.1 hp
    have hb : s.binding p = some ⟨e.nc, e.name.isSubctx⟩ := by rw [NameServer.binding, he]; rfl
    rw [List.filterMap_cons_some hb, List.map_cons, List.map_cons, ih hl, hb]

theorem Accounted.addListing (l : Listing) (h : s.Accounted l.items) :
    NameServer.Accounted { s with listings := s.listings ++ [l] } [] := by
  have hrefs : ∀ p, NameServer.refs { s with listings := s.listings ++ [l] } p + [].count p =
      s.refs p + l.items.count p := by
    intro p
    simp only [refs, List.map_append, List.flatten_append, List.count_append, List.map_cons,
      List.map_nil, List.flatten_cons, List.flatten_nil, List.append_nil, List.count_nil]
    omega
  refine ⟨?_, ?_, h.fresh, h.freedOnce, h.names, h.keys⟩
  · intro p e he
    rw [hrefs]
    exact h.counted p e he
  · intro p hp
    rw [hrefs]
    exact h.dead p hp

theorem list_spec (howMany : Nat) (order : List Nat) (h : s.Sound) :
    ∃ s' l, s.list howMany order = some s' ∧ s'.Sound ∧ s'.listings = s.listings ++ [l] ∧
      l.present.Perm (s.names.filterMap s.binding) := by
  set items := if order.isPerm s.names then order else s.names with hitems
  set n := if 0 < howMany then min howMany s.names.length else 0 with hn
  have hperm : items.Perm s.names := by
    rw [hitems]
    split
    · exact List.isPerm_iff.1 (by assumption)
    · exact List.Perm.refl _
  have hsub : ∀ p ∈ items, p ∈ s.names := fun p hp => hperm.mem_iff.1 hp
  have hlive : ∀ p ∈ items, s.heap p ≠ none := fun p hp => h.accounted.live_names p (hsub p hp)
  obtain ⟨s₁, hs₁, ha₁, hm₁, -, hc₁⟩ := refAll_spec h.accounted hlive
  have hnlen : n ≤ items.length := by
    rw [hperm.length_eq, hn]
    split <;> omega
  obtain ⟨s₂, bl, hs₂, ha₂, hm₂, -, hbl⟩ := namesIntoBindinglist_spec ha₁ hnlen
  have hm := hm₁.trans hm₂
  rw [List.append_nil] at ha₂
  have hbinding : ∀ p, s₁.binding p = s.binding p := fun p => by rw [binding_eq, hc₁, ← binding_eq]
  have hrest : (items.drop n).map s₂.binding = (items.drop n).map s.binding := by
    refine List.map_congr_left fun p hp => ?_
    obtain ⟨e, he⟩ := ha₂.live_held hp
    exact hm.binding h.accounted (by simp [he]) (hlive p (List.mem_of_mem_drop hp))
  have hbl' : bl.map some = (items.take n).map s.binding := by
    rw [hbl]
    exact List.map_congr_left fun p _ => hbinding p
  have hall : bl.map some ++ (items.drop n).map s₂.binding =
      (items.filterMap s.binding).map some := by
    rw [hrest, hbl', ← List.map_append, List.take_append_drop, map_some_present hlive]
  set l : Listing := ⟨items.drop n, (items.drop n).isEmpty, items.filterMap s.binding, bl,
    (items.drop n).isEmpty⟩
  refine ⟨{ s₂ with listings := s₂.listings ++ [l] }, l, ?_, ⟨ha₂.addListing l, ?_⟩, ?_,
    hperm.filterMap _⟩
  · rw [list, ← hitems, ← hn, hs₁]
    simp only [Option.bind_eq_bind, Option.bind_some, hs₂]
    rfl
  · intro k hk
    rcases List.mem_append.1 hk with hk | hk
    · have hk₀ : k ∈ s.listings := hm.listings ▸ hk
      have ht := (h.told k hk₀).moves hm h.accounted
        (fun p hp => h.accounted.live_item hk₀ hp) (fun p hp => ha₂.live_item hk hp)
      exact ⟨ht.distinct, ht.complete, ht.rest⟩
    · rw [List.mem_singleton.1 hk]
      refine ⟨bindings_distinct h.accounted (hperm.nodup_iff.2 h.accounted.names) hsub, ?_,
        fun _ => hall⟩
      intro hstop
      have he : items.drop n = [] := List.isEmpty_iff.1 hstop
      rw [he, List.map_nil, List.append_nil] at hall
      exact List.map_injective_iff.2 (fun _ _ => Option.some.inj) hall
  · rw [hm.listings]

/-! ### Calls at an iterator -/

theorem lt_of_getElem? {i : Nat} {l : Listing} (hl : s.listings[i]? = some l) :
    i < s.listings.length := (List.getElem?_eq_some_iff.1 hl).1

/-- The other clients are told the same while one is served. -/
theorem Sound.served (h : s.Sound) {i : Nat} {l' : Listing} {s₁ : NameServer} (h₁ : s.setListing i l' = s₁)
    (hm : Moves s₁ s') (ha : s'.Accounted []) (ht : s'.Told l') : s'.Sound := by
  refine ⟨ha, fun k hk => ?_⟩
  have hk₁ : k ∈ s.listings.set i l' := by
    rw [hm.listings, ← h₁] at hk
    exact hk
  rcases List.mem_or_eq_of_mem_set hk₁ with hk₀ | rfl
  · have hm₀ : ∀ p, p < s.next → s'.heap p ≠ none → s'.content p = s.content p := by
      intro p hp hlive
      have hc := hm.content p (by rw [← h₁]; exact hp) hlive
      rw [hc, ← h₁]
      rfl
    have htold := h.told k hk₀
    refine ⟨htold.distinct, htold.complete, fun hd => ?_⟩
    rw [← htold.rest hd]
    congr 1
    refine List.map_congr_left fun p hp => ?_
    obtain ⟨e, he⟩ := Option.ne_none_iff_exists'.1 (h.accounted.live_item hk₀ hp)
    rw [binding_eq, binding_eq, hm₀ p (h.accounted.lt_next he) (ha.live_item hk hp)]
  · exact ht

theorem isActive_iff {l : Listing} :
    isActive l = true ↔ l.stopped = false ∧ l.destroyed = false := by
  simp [isActive]

/-- What is left of the items after some have been delivered. -/
theorem rest_drop {l : Listing} {bl : List Binding} {n : Nat} (ht : s.Told l)
    (hd : l.destroyed = false) (hbl : bl.map some = (l.items.take n).map s.binding)
    (hrest : (l.items.drop n).map s'.binding = (l.items.drop n).map s.binding) :
    (l.received ++ bl).map some ++ (l.items.drop n).map s'.binding = l.present.map some := by
  rw [hrest, List.map_append, hbl, List.append_assoc, ← List.map_append, List.take_append_drop,
    ht.rest hd]

theorem nextOne_spec (takes : Bool) {i : Nat} {l : Listing} (h : s.Sound)
    (hl : s.listings[i]? = some l) (hact : isActive l = true) (hne : l.items ≠ []) :
    ∃ s' l', s.nextOne takes i l = some s' ∧ s'.listings[i]? = some l' ∧
      l'.present = l.present ∧ l'.stopped = l.items.tail.isEmpty ∧
      l'.received.length =
        l.received.length + (if l.items.tail.isEmpty && !takes then 0 else 1) ∧
      (2 ≤ l.items.length ∨ takes = true → s'.Sound) := by
  obtain ⟨-, hd⟩ := isActive_iff.1 hact
  have hmem : l ∈ s.listings := List.mem_of_getElem? hl
  obtain ⟨p, rest, hitems⟩ := List.exists_cons_of_ne_nil hne
  obtain ⟨e, he⟩ := Option.ne_none_iff_exists'.1
    (h.accounted.live_item hmem (show p ∈ l.items by rw [hitems]; exact List.mem_cons_self))
  have hb : s.binding p = some ⟨e.nc, e.name.isSubctx⟩ := by rw [NameServer.binding, he]; rfl
  set b : Binding := ⟨e.nc, e.name.isSubctx⟩
  set l' : Listing := { l with
    items := rest
    received := if rest.isEmpty && !takes then l.received else l.received ++ [b]
    stopped := rest.isEmpty } with hl'
  have ha₁ : (s.setListing i l').Accounted [p] := by
    refine h.accounted.setListing hl fun q => ?_
    simp only [hitems, hl', List.count_cons, List.count_nil]
    omega
  obtain ⟨s', hs', ha, hm, -⟩ := rnUnref_spec ha₁
  have hget : s'.listings[i]? = some l' := by
    rw [hm.listings]
    exact List.getElem?_set_self (lt_of_getElem? hl)
  refine ⟨s', l', ?_, hget, rfl, by rw [hitems, hl', List.tail_cons], ?_, fun hcare => ?_⟩
  · rw [nextOne, hitems]
    simp only [hb, Option.bind_eq_bind, Option.bind_some]
    exact hs'
  · rw [hitems, hl', List.tail_cons]
    split <;> simp
  · have hreceived : l'.received = l.received ++ [b] := by
      rw [hl']
      refine if_neg ?_
      rcases hcare with hlen | ht
      · cases rest with
        | nil => simp [hitems] at hlen
        | cons => simp
      · simp [ht]
    have hrest : rest.map s'.binding = rest.map s.binding := by
      refine List.map_congr_left fun q hq => ?_
      have hlive : s.heap q ≠ none :=
        h.accounted.live_item hmem (by rw [hitems]; exact List.mem_cons_of_mem _ hq)
      obtain ⟨e', he'⟩ := Option.ne_none_iff_exists'.1 hlive
      have hlive' : s'.heap q ≠ none := ha.live_item (List.mem_of_getElem? hget) hq
      have hc := hm.content q (h.accounted.lt_next he') hlive'
      rw [binding_eq, binding_eq, hc]
      rfl
    have htold := h.told l hmem
    have hall : l'.received.map some ++ rest.map s'.binding = l'.present.map some := by
      have hone : [b].map some = (l.items.take 1).map s.binding := by simp [hitems, hb]
      have hr := rest_drop htold hd hone (by simpa [hitems] using hrest)
      rw [hitems] at hr
      rw [hreceived]
      exact hr
    refine h.served rfl hm ha ⟨htold.distinct, fun hstop => ?_, fun _ => hall⟩
    have hnil : rest = [] := List.isEmpty_iff.1 hstop
    rw [hnil, List.map_nil, List.append_nil] at hall
    exact List.map_injective_iff.2 (fun _ _ => Option.some.inj) hall

theorem nextN_spec (howMany : Nat) {i : Nat} {l : Listing} (h : s.Sound)
    (hl : s.listings[i]? = some l) (hact : isActive l = true) :
    ∃ s' l', s.nextN i howMany l = some s' ∧ s'.listings[i]? = some l' ∧
      l'.present = l.present ∧
      l'.received.length = l.received.length + min l.items.length howMany ∧
      (l'.stopped = true ↔ min l.items.length howMany = 0) ∧
      (0 < howMany ∨ l.items = [] → s'.Sound) := by
  obtain ⟨-, hd⟩ := isActive_iff.1 hact
  have hmem : l ∈ s.listings := List.mem_of_getElem? hl
  have htold := h.told l hmem
  have hi := lt_of_getElem? hl
  set n := min l.items.length howMany with hn
  have ha₁ : (s.setListing i { l with items := [] }).Accounted (l.items ++ []) := by
    refine h.accounted.setListing hl fun q => ?_
    simp only [List.append_nil, List.count_nil]
    omega
  obtain ⟨s₂, bl, hs₂, ha₂, hm, -, hbl⟩ := namesIntoBindinglist_spec ha₁ (n := n) (by omega)
  have hbl' : bl.map some = (l.items.take n).map s.binding := hbl
  have hlen : bl.length = n := by
    have hlength := congrArg List.length hbl
    rw [List.length_map, List.length_map, List.length_take] at hlength
    omega
  set l' : Listing := { l with
    items := l.items.drop n, received := l.received ++ bl, stopped := bl.isEmpty } with hl'
  have hget₂ : s₂.listings[i]? = some { l with items := [] } := by
    rw [hm.listings]
    exact List.getElem?_set_self hi
  have ha : (s₂.setListing i l').Accounted [] := by
    refine ha₂.setListing hget₂ fun q => ?_
    simp only [hl', List.append_nil, List.count_nil]
    omega
  have hget : (s₂.setListing i l').listings[i]? = some l' :=
    List.getElem?_set_self (lt_of_getElem? hget₂)
  refine ⟨s₂.setListing i l', l', ?_, hget, rfl, ?_, ?_, fun hcare => ?_⟩
  · rw [nextN, ← hn, hs₂]
    rfl
  · rw [hl', List.length_append, hlen]
  · rw [hl', ← hlen, List.isEmpty_iff, List.length_eq_zero_iff]
  · have hrest : (l.items.drop n).map (s₂.setListing i l').binding =
        (l.items.drop n).map s.binding := by
      refine List.map_congr_left fun q hq => ?_
      obtain ⟨e, he⟩ := Option.ne_none_iff_exists'.1
        (h.accounted.live_item hmem (List.mem_of_mem_drop hq))
      have hlive' : s₂.heap q ≠ none := ha.live_item (List.mem_of_getElem? hget) hq
      have hc := hm.content q (h.accounted.lt_next he) hlive'
      have hb : (s₂.setListing i l').binding q = s₂.binding q := rfl
      rw [hb, binding_eq, binding_eq, hc]
      rfl
    have hall := rest_drop htold hd hbl' hrest
    have hset : s.setListing i l' = (s.setListing i { l with items := [] }).setListing i l' := by
      simp [NameServer.setListing, List.set_set]
    have hm' : Moves (s.setListing i l') (s₂.setListing i l') := by
      refine ⟨?_, hm.next, hm.content⟩
      rw [hset, NameServer.setListing, NameServer.setListing, hm.listings]
    refine h.served rfl hm' ha ⟨htold.distinct, fun hstop => ?_, fun _ => hall⟩
    have hz : n = 0 := by
      rw [← hlen, List.length_eq_zero_iff]
      exact List.isEmpty_iff.1 hstop
    have hnil : l.items = [] := by
      rcases hcare with hpos | hnil
      · exact List.length_eq_zero_iff.1 (by omega)
      · exact hnil
    rw [hnil, List.drop_nil, List.map_nil, List.append_nil] at hall
    exact List.map_injective_iff.2 (fun _ _ => Option.some.inj) hall

theorem destroy_spec {i : Nat} {l : Listing} (h : s.Sound) (hl : s.listings[i]? = some l) :
    ∃ s', s.destroy i l = some s' ∧ s'.Sound := by
  have htold := h.told l (List.mem_of_getElem? hl)
  have ha₁ : (s.setListing i { l with items := [], destroyed := true }).Accounted
      (l.items ++ []) := by
    refine h.accounted.setListing hl fun q => ?_
    simp only [List.append_nil, List.count_nil]
    omega
  obtain ⟨s', hs', ha, hm, -⟩ := unrefAll_spec ha₁
  refine ⟨s', hs', h.served rfl hm ha ⟨htold.distinct, htold.complete, ?_⟩⟩
  intro hd
  cases hd

end

/-! ### Runs -/

def Served (s : Option NameServer) : Prop := ∃ t, s = some t ∧ t.Sound

def RightThere (s : Option NameServer) : Prop := ∃ t, s = some t ∧ t.Right

theorem Served.rightThere {s : Option NameServer} (h : Served s) : RightThere s := by
  obtain ⟨t, rfl, ht⟩ := h
  exact ⟨t, rfl, ht.right⟩

/-- A call meant for nobody, or by a client that has stopped, is not made. -/
theorem served_onIterator {s : NameServer} {i : Nat} {active : Listing → Bool}
    {call : Listing → Option NameServer} (h : s.Sound)
    (hcall : ∀ l, s.listings[i]? = some l → active l = true → Served (call l)) :
    Served (s.onIterator i active call) := by
  unfold onIterator
  cases hl : s.listings[i]? with
  | none => exact ⟨s, rfl, h⟩
  | some l =>
    simp only
    split
    · exact hcall l hl (by assumption)
    · exact ⟨s, rfl, h⟩

theorem served_stepped {takes : Bool} {s : Option NameServer} {c : NamingCall} (h : Served s)
    (hc : Careful takes s c) : Served (stepped takes s c) := by
  obtain ⟨s, rfl, h⟩ := h
  cases c with
  | bind nc name gone =>
    obtain ⟨t, ht, ha, hm⟩ := bind_spec nc name gone h.accounted
    exact ⟨t, ht, h.moves hm ha⟩
  | rebind nc name =>
    obtain ⟨t, ht, ha, hm⟩ := rebind_spec nc name h.accounted
    exact ⟨t, ht, h.moves hm ha⟩
  | unbind nc =>
    obtain ⟨t, ht, ha, hm, -⟩ := unbind_spec nc h.accounted
    exact ⟨t, ht, h.moves hm ha⟩
  | list howMany order =>
    obtain ⟨t, _, ht, hs, -, -⟩ := list_spec howMany order h
    exact ⟨t, ht, hs⟩
  | nextOne i =>
    refine served_onIterator h fun l hl hact => ?_
    have hne : l.items ≠ [] := by
      rcases hc l hl hact with hlen | ⟨-, hne⟩
      · intro hnil
        simp [hnil] at hlen
      · exact hne
    obtain ⟨t, _, ht, -, -, -, -, hs⟩ := nextOne_spec takes h hl hact hne
    exact ⟨t, ht, hs ((hc l hl hact).imp_right And.left)⟩
  | nextN i howMany =>
    refine served_onIterator h fun l hl hact => ?_
    obtain ⟨t, _, ht, -, -, -, -, hs⟩ := nextN_spec howMany h hl hact
    exact ⟨t, ht, hs (hc l hl hact)⟩
  | destroy i =>
    refine served_onIterator h fun l hl _ => ?_
    exact destroy_spec h hl

/-- A client that stops short of the end misses what is left. -/
theorem not_right_of_short {s : NameServer} {i : Nat} {l : Listing} (hl : s.listings[i]? = some l)
    (hstop : l.stopped = true) (hlen : l.received.length < l.present.length) :
    ¬ RightThere (some s) := by
  rintro ⟨t, ht, h⟩
  obtain rfl := Option.some.inj ht
  have hc := h.complete l (List.mem_of_getElem? hl) hstop
  rw [hc] at hlen
  exact Nat.lt_irrefl _ hlen

theorem length_present {s : NameServer} {l : Listing} (h : s.Told l) (hd : l.destroyed = false) :
    l.present.length = l.received.length + l.items.length := by
  have hlen := congrArg List.length (h.rest hd)
  simpa using hlen.symm

theorem not_right_stepped {takes : Bool} {s : Option NameServer} {c : NamingCall} (h : Served s)
    (hc : ¬ Careful takes s c) : ¬ RightThere (stepped takes s c) := by
  obtain ⟨s, rfl, h⟩ := h
  cases c with
  | nextOne i =>
    simp only [Careful, not_forall, not_or, not_and] at hc
    obtain ⟨l, hl, hact, hlen, htakes⟩ := hc
    have hstep : stepped takes (some s) (.nextOne i) = s.nextOne takes i l := by
      simp [stepped, step, onIterator, hl, hact]
    rw [hstep]
    by_cases hnil : l.items = []
    · rw [nextOne, hnil]
      rintro ⟨t, ht, -⟩
      cases ht
    · obtain ⟨t, l', ht, hl', hpresent, hstop, hreceived, -⟩ :=
        nextOne_spec takes h hl hact hnil
      have htakes : takes = false := by
        cases takes
        · rfl
        · exact absurd hnil (htakes rfl)
      have hone : l.items.length = 1 := by
        have hpos := List.length_pos_iff.2 hnil
        omega
      have htail : l.items.tail.isEmpty = true := by
        rw [List.isEmpty_iff, ← List.length_eq_zero_iff, List.length_tail, hone]
      have hpl := length_present (h.told l (List.mem_of_getElem? hl)) (isActive_iff.1 hact).2
      rw [ht]
      refine not_right_of_short hl' (hstop.trans htail) ?_
      rw [hreceived, hpresent, hpl, hone, htail, htakes]
      simp
  | nextN i howMany =>
    simp only [Careful, not_forall, not_or] at hc
    obtain ⟨l, hl, hact, hzero, hne⟩ := hc
    have hstep : stepped takes (some s) (.nextN i howMany) = s.nextN i howMany l := by
      simp [stepped, step, onIterator, hl, hact]
    obtain ⟨t, l', ht, hl', hpresent, hreceived, hstop, -⟩ :=
      nextN_spec howMany h hl hact
    have hn : min l.items.length howMany = 0 := by omega
    have hpos := List.length_pos_iff.2 hne
    have hpl := length_present (h.told l (List.mem_of_getElem? hl)) (isActive_iff.1 hact).2
    rw [hstep, ht]
    refine not_right_of_short hl' (hstop.2 hn) ?_
    rw [hreceived, hpresent, hpl, hn]
    omega
  | _ => exact absurd trivial hc

theorem sound_empty : empty.Sound := by
  refine ⟨⟨?_, ?_, ?_, ?_, List.nodup_nil, ?_⟩, ?_⟩ <;> simp [empty, refs]

/-- In every state of a run every entry is there as long as it is referred to and freed once, and
every client that has come to the end has every binding of its list once, if and only if all calls
of the run are careful. -/
theorem listed_once (takes : Bool) (calls : List NamingCall) :
    Runs.Always (stepped takes) RightThere (some empty) calls ↔
      Runs.Meets (stepped takes) (Careful takes) (some empty) calls :=
  Runs.always_iff_meets_of (fun _ _ => served_stepped) (fun _ => Served.rightThere)
    (fun _ _ => not_right_stepped) ⟨empty, rfl, sound_empty⟩

/-- One name is bound and then listed by an iterator alone. The client asks for none; or for one,
and ignores what comes with FALSE; or for all and then for one more. -/
theorem listed_short :
    let calls (c : List NamingCall) : List NamingCall :=
      [.bind ⟨"a", ""⟩ ⟨.object 0, false⟩ false, .list 0 []] ++ c
    ¬ Runs.Always (stepped true) RightThere (some empty) (calls [.nextN 0 0]) ∧
      ¬ Runs.Always (stepped false) RightThere (some empty) (calls [.nextOne 0]) ∧
      ¬ Runs.Always (stepped true) RightThere (some empty) (calls [.nextN 0 1, .nextOne 0]) := by
  refine ⟨fun h => ?_, fun h => ?_, fun h => ?_⟩
  · exact absurd h.last (not_right_of_short (i := 0)
      (l := ⟨[0], false, [⟨⟨"a", ""⟩, false⟩], [], true⟩) rfl rfl (by simp))
  · exact absurd h.last (not_right_of_short (i := 0)
      (l := ⟨[], false, [⟨⟨"a", ""⟩, false⟩], [], true⟩) rfl rfl (by simp))
  · obtain ⟨t, ht, -⟩ := h.last
    cases ht

end NameServer
end ORBit2
