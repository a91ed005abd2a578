import ORBit2.ReferenceTable

/-! Which runs keep one reference for one object. -/

set_option autoImplicit false

namespace ORBit2

/-! ### The comparison -/

theorem equalStrings_comm (s t : List UInt8) : equalStrings s t = equalStrings t s := by
  induction s generalizing t with
  | nil => cases t <;> rfl
  | cons a s ih =>
    cases t with
    | nil => rfl
    | cons b t =>
      rw [equalStrings, equalStrings]
      by_cases hab : a = b
      · subst hab
        simp only [ne_eq, not_true_eq_false, if_false, ih]
      · rw [if_pos hab, if_pos (Ne.symm hab)]

theorem equalBlocks_comm (s t : Block) : equalBlocks s t = equalBlocks t s := by
  cases s with
  | none => cases t <;> rfl
  | some s =>
    cases t with
    | none => rfl
    | some t => exact equalStrings_comm s t

theorem profileEqual_comm (obj1 obj2 : Reference) (p q : IopProfile Block) :
    profileEqual obj1 obj2 p q = profileEqual obj2 obj1 q p := by
  cases p with
  | internetIop _ host1 port1 key1 _ =>
    cases q with
    | internetIop _ host2 port2 key2 _ =>
      simp only [profileEqual, equalBlocks_comm host1 host2, or_comm (a := key1 ≠ none),
        ne_comm (a := port1)]
    | _ => rfl
  | genericIop _ proto1 host1 service1 _ =>
    cases q with
    | genericIop _ proto2 host2 service2 _ =>
      simp only [profileEqual, equalBlocks_comm proto1, equalBlocks_comm host1,
        equalBlocks_comm service1, Bool.or_comm (obj1.profileList.any _)]
    | _ => rfl
  | orbitSpecific path1 port1 key1 =>
    cases q with
    | orbitSpecific path2 port2 key2 =>
      simp only [profileEqual, equalBlocks_comm path1 path2, or_comm (a := key1 ≠ none),
        ne_comm (a := port1)]
    | _ => rfl
  | multipleComponents => cases q <;> rfl
  | unknown => cases q <;> rfl

theorem anyM_eq_ok {ε α : Type} {f : α → Except ε Bool} {g : α → Bool} {as : List α}
    (h : ∀ a ∈ as, f a = .ok (g a)) : as.anyM f = .ok (as.any g) := by
  induction as with
  | nil => rfl
  | cons a as ih =>
    obtain ⟨ha, hrest⟩ := List.forall_mem_cons.mp h
    rw [List.anyM, ha, List.any_cons]
    cases g a with
    | true => rfl
    | false => exact ih hrest

namespace SoundReference
variable (a b : SoundReference)

theorem equal_eq : a.ref.equal b.ref = .ok (a.same b) := by
  obtain ⟨equal, hequal⟩ := a.sound.equal b.sound
  rw [same, hequal]

/-- The profiles are equal. -/
def profileSame (p q : IopProfile Block) : Bool :=
  match profileEqual a.ref b.ref p q with
  | .ok equal => equal
  | .error _ => false

theorem profileSame_comm (p q : IopProfile Block) : a.profileSame b p q = b.profileSame a q p := by
  rw [profileSame, profileSame, profileEqual_comm]

theorem same_iff : a.same b = true ↔ a.ref.objectKey = b.ref.objectKey ∧
    ∃ p ∈ a.ref.profileList, ∃ q ∈ b.ref.profileList, a.profileSame b p q = true := by
  obtain ⟨key, hkey⟩ := Option.ne_none_iff_exists'.1 a.sound.key
  obtain ⟨otherKey, hotherKey⟩ := Option.ne_none_iff_exists'.1 b.sound.key
  have hequal := a.equal_eq b
  simp only [Reference.equal, hkey, hotherKey] at hequal
  simp only [hkey, hotherKey, Option.some.injEq]
  by_cases hne : key = otherKey
  · subst hne
    have hinner : ∀ p ∈ a.ref.profileList, b.ref.profileList.anyM (profileEqual a.ref b.ref p) =
        .ok (b.ref.profileList.any (a.profileSame b p)) := by
      intro p hp
      refine anyM_eq_ok fun q hq => ?_
      obtain ⟨equal, hpq⟩ := profileEqual_ok a.ref b.ref (a.sound.stripped p hp)
        (b.sound.stripped q hq) (a.sound.strings p hp) (b.sound.strings q hq)
      rw [profileSame, hpq]
    rw [if_neg (not_not.mpr rfl), anyM_eq_ok hinner, Except.ok.injEq] at hequal
    simp [← hequal, List.any_eq_true]
  · rw [if_pos hne, Except.ok.injEq] at hequal
    simp [← hequal, hne]

theorem same_comm : a.same b = b.same a := by
  rw [Bool.eq_iff_iff, same_iff, same_iff, eq_comm]
  refine and_congr_right fun _ => ?_
  constructor
  · rintro ⟨p, hp, q, hq, h⟩
    exact ⟨q, hq, p, hp, by rwa [profileSame_comm]⟩
  · rintro ⟨p, hp, q, hq, h⟩
    exact ⟨q, hq, p, hp, by rwa [profileSame_comm]⟩

/-- Another key does not change whether a reference is equal to itself. -/
theorem same_withKey (key : List UInt8) : (a.withKey key).same (a.withKey key) = a.same a := by
  rw [Bool.eq_iff_iff, same_iff, same_iff]
  exact and_congr (iff_of_true rfl rfl) Iff.rfl

/-- Profiles of this kind are compared by what they say. -/
def comparable : IopProfile Block → Bool
  | .internetIop _ _ _ _ _ | .orbitSpecific _ _ _ => true
  | .genericIop _ _ _ _ _ => a.ref.profileList.any IopProfile.isMultipleComponents
  | .multipleComponents _ | .unknown _ _ => false

theorem equalStrings_self {s : List UInt8} (hs : 0 ∈ s) : equalStrings s s = .ok true := by
  induction s with
  | nil => cases hs
  | cons b s ih =>
    rw [equalStrings, if_neg (not_not.mpr rfl)]
    by_cases hb : b = 0
    · rw [if_pos hb]
    · rw [if_neg hb]
      exact ih ((List.mem_cons.mp hs).resolve_left (Ne.symm hb))

theorem equalBlocks_self {s : Block} (hs : Terminated s) : equalBlocks s s = .ok true := by
  obtain ⟨bytes, rfl, hs⟩ := hs
  exact equalStrings_self hs

/-- A reference is equal to itself when one of its profiles can be compared. -/
theorem same_self_iff : a.same a = true ↔ ∃ p ∈ a.ref.profileList, a.comparable p = true := by
  rw [same_iff]
  constructor
  · rintro ⟨-, p, hp, q, hq, h⟩
    refine ⟨p, hp, ?_⟩
    cases p with
    | internetIop => rfl
    | orbitSpecific => rfl
    | genericIop =>
      cases q with
      | genericIop =>
        by_contra hnone
        rw [comparable] at hnone
        simp [profileSame, profileEqual, hnone] at h
      | _ => cases h
    | multipleComponents => cases q <;> cases h
    | unknown => cases q <;> cases h
  · rintro ⟨p, hp, h⟩
    refine ⟨rfl, p, hp, p, hp, ?_⟩
    have hstripped := a.sound.stripped p hp
    have hstrings := a.sound.strings p hp
    cases p with
    | internetIop _ host port key _ =>
      have hkey : key = none := hstripped
      simp [profileSame, profileEqual, hkey, equalBlocks_self (hstrings host (by simp [IopProfile.strings]))]
    | orbitSpecific path port key =>
      have hkey : key = none := hstripped
      simp [profileSame, profileEqual, hkey, equalBlocks_self (hstrings path (by simp [IopProfile.strings]))]
    | genericIop _ proto host service _ =>
      rw [comparable] at h
      simp [profileSame, profileEqual, h, equalBlocks_self (hstrings proto (by simp [IopProfile.strings])),
        equalBlocks_self (hstrings host (by simp [IopProfile.strings])),
        equalBlocks_self (hstrings service (by simp [IopProfile.strings])), Outcomes.ok_bind]
    | multipleComponents => cases h
    | unknown => cases h

end SoundReference

namespace ReferenceTable.State

section
variable {s : State} {o : Nat} {ref : SoundReference}

/-- The invariant: the nodes are those of the references that have been put into the table. -/
structure Canonical (s : State) : Prop where
  nodes : ∀ n ∈ s.objrefs, n.value = n.key ∧ ∃ r, s.Registered n.key r ∧ r.same r = true
  nodup : (s.objrefs.map KeyTable.Node.key).Nodup
  listed : ∀ o r, s.Registered o r → ∃ n ∈ s.objrefs, n.key = o
  distinct : ∀ o o' r r', s.Registered o r → s.Registered o' r' → o ≠ o' → r.same r' = false
  counted : ∀ o obj, s.heap o = some obj → 0 < obj.refs

theorem Registered.inj {r : SoundReference} (h : s.Registered o ref) (h' : s.Registered o r) :
    ref = r := by
  obtain ⟨obj, hobj, -, href⟩ := h
  obtain ⟨obj', hobj', -, hr⟩ := h'
  obtain rfl : obj = obj' := Option.some.inj (hobj.symm.trans hobj')
  exact Option.some.inj (href.symm.trans hr)

theorem Registered.compare (h : s.Registered o ref) (probe : SoundReference) :
    compareKey s.heap probe o = .ok (ref.same probe) := by
  obtain ⟨obj, hobj, -, href⟩ := h
  simp only [compareKey, hobj, Option.bind_some, href]

/-- All that the invariant says of a heap is which references are in the table. -/
theorem Canonical.congr {s' : State} (h : s.Canonical) (hobjrefs : s'.objrefs = s.objrefs)
    (hreg : ∀ o r, s'.Registered o r ↔ s.Registered o r)
    (hcounted : ∀ o obj, s'.heap o = some obj → 0 < obj.refs) : s'.Canonical where
  nodes := by
    rw [hobjrefs]
    intro n hn
    obtain ⟨hvalue, r, hr, hsame⟩ := h.nodes n hn
    exact ⟨hvalue, r, (hreg _ _).mpr hr, hsame⟩
  nodup := hobjrefs ▸ h.nodup
  listed o r hr := hobjrefs ▸ h.listed o r ((hreg o r).mp hr)
  distinct o o' r r' hr hr' := h.distinct o o' r r' ((hreg o r).mp hr) ((hreg o' r').mp hr')
  counted := hcounted

theorem Canonical.compare (h : s.Canonical) (probe : SoundReference) {n : KeyTable.Node Nat Nat}
    (hn : n ∈ s.objrefs) : ∃ r, s.Registered n.key r ∧
      compareKey s.heap probe n.key = .ok (r.same probe) := by
  obtain ⟨-, r, hr, -⟩ := h.nodes n hn
  exact ⟨r, hr, hr.compare probe⟩

/-- A reference that is equal to none in the table is compared with all, and not found. -/
theorem Canonical.miss (h : s.Canonical) (hk : ¬ s.Known ref) :
    ∀ n ∈ s.objrefs, compareKey s.heap ref n.key = .ok false := by
  intro n hn
  obtain ⟨r, hr, hcompare⟩ := h.compare ref hn
  rw [hcompare, Except.ok.injEq, Bool.eq_false_iff]
  exact fun hsame => hk ⟨n.key, r, hr, hsame⟩

/-- A reference that is equal to one in the table meets a node of such a one first. -/
theorem Canonical.hit (h : s.Canonical) (hk : s.Known ref) :
    ∃ before n after r, s.objrefs = before ++ n :: after ∧ s.Registered n.key r ∧ n.value = n.key ∧
      (∀ m ∈ before, compareKey s.heap ref m.key = .ok false) ∧
      compareKey s.heap ref n.key = .ok true ∧ ∀ m ∈ before ++ after, m.key ≠ n.key := by
  have hall : ∀ n ∈ s.objrefs, ∃ b, compareKey s.heap ref n.key = .ok b := fun n hn => by
    obtain ⟨r, -, hcompare⟩ := h.compare ref hn
    exact ⟨_, hcompare⟩
  rcases KeyTable.miss_or_hit hall with hmiss | ⟨before, n, after, hsplit, hbefore, hn⟩
  · obtain ⟨o, r, hr, hsame⟩ := hk
    obtain ⟨n, hn, rfl⟩ := h.listed o r hr
    have hfalse := hmiss n hn
    rw [hr.compare ref, hsame] at hfalse
    cases hfalse
  · have hmem : n ∈ s.objrefs := by simp [hsplit]
    obtain ⟨hvalue, r, hr, -⟩ := h.nodes n hmem
    refine ⟨before, n, after, r, hsplit, hr, hvalue, hbefore, hn, fun m hm heq => ?_⟩
    have hnodup := h.nodup
    rw [hsplit, List.map_append, List.map_cons, List.nodup_middle, List.nodup_cons] at hnodup
    apply hnodup.1
    rw [← heq, ← List.map_append]
    exact List.mem_map_of_mem hm

/-- The node of a reference that has been put into the table is the only one equal to it. -/
theorem Canonical.own (h : s.Canonical) (hr : s.Registered o ref) :
    ∃ before after, s.objrefs = before ++ ⟨o, o⟩ :: after ∧
      (∀ m ∈ before, compareKey s.heap ref m.key = .ok false) ∧
      compareKey s.heap ref o = .ok true ∧ ∀ m ∈ before ++ after, m.key ≠ o := by
  obtain ⟨n, hn, hkey⟩ := h.listed o ref hr
  obtain ⟨-, r, hr', hself⟩ := h.nodes n hn
  rw [hkey] at hr'
  rw [← hr.inj hr'] at hself
  obtain ⟨before, m, after, q, hsplit, hq, hvalue, hbefore, hm, hothers⟩ := h.hit ⟨o, ref, hr, hself⟩
  have hown : m.key = o := by
    by_contra hne
    have hfalse := h.distinct m.key o q ref hq hr hne
    rw [hq.compare ref, hfalse] at hm
    cases hm
  obtain ⟨key, value⟩ := m
  cases hown
  cases hvalue
  exact ⟨before, after, hsplit, hbefore, hm, hothers⟩

theorem Canonical.unique (h : s.Canonical) : s.Unique where
  alive n hn := by
    obtain ⟨hvalue, r, ⟨obj, hobj, -, -⟩, -⟩ := h.nodes n hn
    rw [hvalue, hobj]
    exact ⟨rfl, rfl⟩
  found o ref hr := by
    obtain ⟨before, after, hsplit, hbefore, hown, -⟩ := h.own hr
    rw [hsplit]
    exact KeyTable.lookup_hit hbefore hown
  distinct := h.distinct

/-- A reference whose address is the value of no node is not found. -/
theorem not_unique_of_value (hr : s.Registered o ref) (hv : ∀ n ∈ s.objrefs, n.value ≠ o) :
    ¬ s.Unique := by
  intro hu
  obtain ⟨n, hn, hvalue⟩ := KeyTable.lookup_mem (hu.found o ref hr)
  exact hv n hn hvalue

/-! ### Steps -/

theorem registered_update {o' : Nat} {x : Option ObjectReference}
    {nodes : List (KeyTable.Node Nat Nat)} :
    (⟨Function.update s.heap o x, nodes⟩ : State).Registered o' ref ↔
      (o' = o ∧ ∃ obj, x = some obj ∧ obj.registered = true ∧ obj.reference = some ref) ∨
        (o' ≠ o ∧ s.Registered o' ref) := by
  by_cases heq : o' = o
  · subst heq
    simp [Registered]
  · simp [Registered, heq]

theorem update_eq_some {heap : Nat → Option ObjectReference} {o' : Nat}
    {x : Option ObjectReference} {obj : ObjectReference}
    (h : Function.update heap o x o' = some obj) : x = some obj ∨ heap o' = some obj := by
  by_cases heq : o' = o
  · rw [heq, Function.update_self] at h
    exact .inl h
  · rw [Function.update_of_ne heq] at h
    exact .inr h

/-- A change that leaves alone which references are in the table. -/
theorem Canonical.update (h : s.Canonical) {x : Option ObjectReference}
    (hx : ∀ r, (∃ obj, x = some obj ∧ obj.registered = true ∧ obj.reference = some r) ↔
      s.Registered o r) (hcounted : ∀ obj, x = some obj → 0 < obj.refs) :
    ({ s with heap := Function.update s.heap o x } : State).Canonical := by
  refine h.congr rfl (fun o' r => ?_) fun o' obj hobj => ?_
  · rw [registered_update, hx]
    by_cases heq : o' = o
    · subst heq
      simp
    · simp [heq]
  · rcases update_eq_some hobj with hobj | hobj
    · exact hcounted obj hobj
    · exact h.counted o' obj hobj

theorem Canonical.touch (h : s.Canonical) {obj : ObjectReference} (hobj : s.heap o = some obj)
    (refs : Nat) (hrefs : 0 < refs) :
    ({ s with heap := Function.update s.heap o (some { obj with refs := refs }) } : State).Canonical :=
  h.update (fun r => by simp [Registered, hobj]) fun obj' hobj' => by
    obtain rfl := Option.some.inj hobj'
    exact hrefs

/-- A reference that is put into the table. -/
theorem Canonical.register (h : s.Canonical) (ho : ∀ r, ¬ s.Registered o r) {obj : ObjectReference}
    (hrefs : 0 < obj.refs) (ref : SoundReference) :
    ∃ s', s.register o obj ref = .ok s' ∧
      (¬ s.Known ref ∧ ref.same ref = true → s'.Canonical) ∧
      (¬ (¬ s.Known ref ∧ ref.same ref = true) → ¬ s'.Unique) := by
  let new : ObjectReference := { obj with reference := some ref, registered := true }
  let heap := Function.update s.heap o (some new)
  have hsame : ∀ m ∈ s.objrefs, compareKey heap ref m.key = compareKey s.heap ref m.key := by
    intro m hm
    obtain ⟨-, r, hr, -⟩ := h.nodes m hm
    have hne : m.key ≠ o := fun heq => ho r (heq ▸ hr)
    simp only [compareKey, heap, Function.update_of_ne hne]
  have hreg : ∀ {nodes o' r}, (⟨heap, nodes⟩ : State).Registered o' r ↔
      (o' = o ∧ ref = r) ∨ (o' ≠ o ∧ s.Registered o' r) := by
    intro nodes o' r
    rw [registered_update]
    simp [new]
  have hown : compareKey heap ref o = .ok (ref.same ref) := by
    simp [compareKey, heap, new]
  by_cases hk : s.Known ref
  · -- the node of the other one gets this value
    obtain ⟨before, n, after, r, hsplit, hr, hvalue, hbefore, hn, hothers⟩ := h.hit hk
    have hne : n.key ≠ o := fun heq => ho r (heq ▸ hr)
    have hinsert : KeyTable.insert (compareKey heap ref) o o s.objrefs =
        .ok (before ++ ⟨n.key, o⟩ :: after) := by
      rw [hsplit]
      refine KeyTable.insert_hit (fun m hm => ?_) ?_ o o
      · rw [hsame m (by simp [hsplit, hm])]
        exact hbefore m hm
      · rw [hsame n (by simp [hsplit])]
        exact hn
    refine ⟨⟨heap, before ++ ⟨n.key, o⟩ :: after⟩, ?_, fun hgood => absurd hk hgood.1, fun _ => ?_⟩
    · simp only [State.register, new, heap] at hinsert ⊢
      rw [hinsert]
      rfl
    · refine not_unique_of_value (hreg.mpr (.inr ⟨hne, hr⟩)) fun m hm => ?_
      have hrest : ∀ m ∈ before ++ after, m.value ≠ n.key := fun m hm => by
        rw [(h.nodes m (by
          rw [hsplit]
          rcases List.mem_append.mp hm with hm | hm <;> simp [hm])).1]
        exact hothers m hm
      rcases List.mem_append.mp hm with hm | hm
      · exact hrest m (List.mem_append_left _ hm)
      · rcases List.mem_cons.mp hm with rfl | hm
        · exact hne.symm
        · exact hrest m (List.mem_append_right _ hm)
  · have hmiss : ∀ m ∈ s.objrefs, compareKey heap ref m.key = .ok false := fun m hm => by
      rw [hsame m hm]
      exact h.miss hk m hm
    refine ⟨⟨heap, s.objrefs ++ [⟨o, o⟩]⟩, ?_, fun hgood => ?_, fun hbad => ?_⟩
    · have hinsert := KeyTable.insert_miss hmiss o o
      simp only [State.register, new, heap] at hinsert ⊢
      rw [hinsert]
      rfl
    · have hdistinct : ∀ o' r, s.Registered o' r → r.same ref = false := by
        intro o' r hr
        rw [Bool.eq_false_iff]
        exact fun heq => hk ⟨o', r, hr, heq⟩
      refine ⟨fun n hn => ?_, ?_, fun o' r hr => ?_, fun o₁ o₂ r₁ r₂ h₁ h₂ hne => ?_,
        fun o' obj' hobj' => ?_⟩
      · rcases List.mem_append.mp hn with hn | hn
        · obtain ⟨hvalue, r, hr, hself⟩ := h.nodes n hn
          exact ⟨hvalue, r, hreg.mpr (.inr ⟨fun heq => ho r (heq ▸ hr), hr⟩), hself⟩
        · obtain rfl := List.mem_singleton.mp hn
          exact ⟨rfl, ref, hreg.mpr (.inl ⟨rfl, rfl⟩), hgood.2⟩
      · rw [List.map_append, List.nodup_append]
        refine ⟨h.nodup, by simp, ?_⟩
        intro a ha b hb
        obtain ⟨n, hn, rfl⟩ := List.mem_map.mp ha
        obtain ⟨-, r, hr, -⟩ := h.nodes n hn
        obtain rfl : b = o := by simpa using hb
        exact fun heq => ho r (heq ▸ hr)
      · rcases hreg.mp hr with ⟨rfl, -⟩ | ⟨-, hr⟩
        · exact ⟨⟨o', o'⟩, by simp, rfl⟩
        · obtain ⟨n, hn, hkey⟩ := h.listed o' r hr
          exact ⟨n, List.mem_append_left _ hn, hkey⟩
      · rcases hreg.mp h₁ with ⟨rfl, rfl⟩ | ⟨-, hr₁⟩
        · rcases hreg.mp h₂ with ⟨rfl, -⟩ | ⟨-, hr₂⟩
          · exact absurd rfl hne
          · rw [SoundReference.same_comm]
            exact hdistinct o₂ r₂ hr₂
        · rcases hreg.mp h₂ with ⟨rfl, rfl⟩ | ⟨-, hr₂⟩
          · exact hdistinct o₁ r₁ hr₁
          · exact h.distinct o₁ o₂ r₁ r₂ hr₁ hr₂ hne
      · rcases update_eq_some hobj' with hobj' | hobj'
        · obtain rfl := Option.some.inj hobj'
          exact hrefs
        · exact h.counted o' obj' hobj'
    · -- it is not found by its own profiles
      have hself : ref.same ref = false := by
        rw [Bool.eq_false_iff]
        exact fun heq => hbad ⟨hk, heq⟩
      intro hu
      have hfound := hu.found o ref (hreg.mpr (.inl ⟨rfl, rfl⟩))
      rw [KeyTable.lookup_miss fun m hm => ?_] at hfound
      · cases hfound
      · rcases List.mem_append.mp hm with hm | hm
        · exact hmiss m hm
        · obtain rfl := List.mem_singleton.mp hm
          rw [hown, hself]

/-- The node of a reference is removed, and no other. -/
theorem Canonical.unlist (h : s.Canonical) (hr : s.Registered o ref) {x : Option ObjectReference}
    (hx : ∀ obj, x = some obj → obj.registered = false ∧ 0 < obj.refs) :
    ∃ nodes, KeyTable.remove (compareKey s.heap ref) s.objrefs = .ok nodes ∧
      (⟨Function.update s.heap o x, nodes⟩ : State).Canonical := by
  obtain ⟨before, after, hsplit, hbefore, hown, hothers⟩ := h.own hr
  have hsub : (before ++ after).Sublist s.objrefs := by
    rw [hsplit]
    exact List.Sublist.append_left (List.sublist_cons_self ..) _
  have hreg : ∀ {o' r}, (⟨Function.update s.heap o x, before ++ after⟩ : State).Registered o' r ↔
      o' ≠ o ∧ s.Registered o' r := by
    intro o' r
    rw [registered_update]
    refine or_iff_right ?_
    rintro ⟨-, obj, hobj, htrue, -⟩
    rw [(hx obj hobj).1] at htrue
    cases htrue
  refine ⟨before ++ after, by rw [hsplit]; exact KeyTable.remove_hit hbefore hown, ?_⟩
  refine ⟨fun n hn => ?_, h.nodup.sublist (hsub.map _), fun o' r hr' => ?_,
    fun o₁ o₂ r₁ r₂ h₁ h₂ => h.distinct o₁ o₂ r₁ r₂ (hreg.mp h₁).2 (hreg.mp h₂).2, fun o' obj hobj => ?_⟩
  · obtain ⟨hvalue, r, hr', hself⟩ := h.nodes n (hsub.subset hn)
    exact ⟨hvalue, r, hreg.mpr ⟨hothers n hn, hr'⟩, hself⟩
  · obtain ⟨hne, hr'⟩ := hreg.mp hr'
    obtain ⟨n, hn, hkey⟩ := h.listed o' r hr'
    rw [hsplit] at hn
    refine ⟨n, ?_, hkey⟩
    rcases List.mem_append.mp hn with hn | hn
    · exact List.mem_append_left _ hn
    · rcases List.mem_cons.mp hn with rfl | hn
      · exact absurd hkey.symm hne
      · exact List.mem_append_right _ hn
  · rcases update_eq_some hobj with hobj | hobj
    · exact (hx obj hobj).2
    · exact h.counted o' obj hobj

/-- A reference that is not in the table, but equal to one there, takes the node of that one away. -/
theorem Canonical.robbed (h : s.Canonical) (ho : ∀ r, ¬ s.Registered o r) (hk : s.Known ref) :
    ∃ nodes o' r, KeyTable.remove (compareKey s.heap ref) s.objrefs = .ok nodes ∧ o' ≠ o ∧
      s.Registered o' r ∧ ∀ m ∈ nodes, m.value ≠ o' := by
  obtain ⟨before, n, after, r, hsplit, hr, -, hbefore, hn, hothers⟩ := h.hit hk
  refine ⟨before ++ after, n.key, r, by rw [hsplit]; exact KeyTable.remove_hit hbefore hn,
    fun heq => ho r (heq ▸ hr), hr, fun m hm => ?_⟩
  have hmem : m ∈ s.objrefs := by
    rw [hsplit]
    rcases List.mem_append.mp hm with hm | hm <;> simp [hm]
  rw [(h.nodes m hmem).1]
  exact hothers m hm

/-- A step that keeps the table leads to a state that the invariant describes, and no other step
leads to one that is as it should be. -/
def Kept (s : State) (e : Event) : Prop :=
  (s.Keeps e → ∃ s', s.act e = .ok s' ∧ s'.Canonical) ∧
    (¬ s.Keeps e → ∀ s', s.act e = .ok s' → ¬ s'.Unique)

theorem knownElse_iff (ho : ∀ r, ¬ s.Registered o r) : s.KnownElse o ref ↔ s.Known ref := by
  constructor
  · rintro ⟨o', r, -, hr, hsame⟩
    exact ⟨o', r, hr, hsame⟩
  · rintro ⟨o', r, hr, hsame⟩
    exact ⟨o', r, fun heq => ho r (heq ▸ hr), hr, hsame⟩

theorem Canonical.kept_find (h : s.Canonical) (addr : Nat) (he : (s.heap addr).isNone = true) :
    s.Kept (.find ref addr) := by
  by_cases hk : s.Known ref
  · obtain ⟨before, n, after, r, hsplit, ⟨obj, hobj, -⟩, hvalue, hbefore, hn, -⟩ := h.hit hk
    have hfound : KeyTable.lookup (compareKey s.heap ref) s.objrefs = .ok (some n.key) := by
      rw [hsplit, ← hvalue]
      exact KeyTable.lookup_hit hbefore hn
    refine ⟨fun _ => ⟨_, ?_, h.touch hobj _ (Nat.succ_pos obj.refs)⟩, fun hbad => absurd (.inl hk) hbad⟩
    simp only [act, hfound, Outcomes.ok_bind, hobj]
    rfl
  · have hfree : s.heap addr = none := Option.isNone_iff_eq_none.mp he
    have ho : ∀ r, ¬ s.Registered addr r := by
      rintro r ⟨obj, hobj, -⟩
      rw [hfree] at hobj
      cases hobj
    obtain ⟨s', hok, hgood, hbad⟩ := 
      h.register ho (show 0 < (⟨none, 1, false⟩ : ObjectReference).refs from Nat.one_pos) ref
    have hact : s.act (.find ref addr) = .ok s' := by
      simp only [act, KeyTable.lookup_miss (h.miss hk), Outcomes.ok_bind, hok]
    refine ⟨fun hkeeps => ⟨s', hact, hgood ⟨hk, hkeeps.resolve_left hk⟩⟩, fun hkeeps s'' hs'' => ?_⟩
    obtain rfl := Except.ok.inj (hact.symm.trans hs'')
    exact hbad fun hboth => hkeeps (.inr hboth.2)

theorem Canonical.kept_generate (h : s.Canonical)
    (he : ((s.heap o).any fun obj => obj.reference.isNone) = true) : s.Kept (.generate o ref) := by
  obtain ⟨obj, hobj, hnone⟩ := (Option.any_eq_true ..).mp he
  have ho : ∀ r, ¬ s.Registered o r := by
    rintro r ⟨obj', hobj', -, href⟩
    obtain rfl := Option.some.inj (hobj.symm.trans hobj')
    rw [href] at hnone
    cases hnone
  obtain ⟨s', hok, hgood, hbad⟩ := h.register ho (h.counted o obj hobj) ref
  have hact : s.act (.generate o ref) = .ok s' := by simp only [act, hobj, hok]
  refine ⟨fun hkeeps => ⟨s', hact, hgood hkeeps⟩, fun hkeeps s'' hs'' => ?_⟩
  obtain rfl := Except.ok.inj (hact.symm.trans hs'')
  exact hbad hkeeps

/-- The key of a reference is exchanged: its node is taken out and put back. -/
theorem Canonical.kept_forward (h : s.Canonical) (key : List UInt8)
    (he : (s.refAt o).isSome = true) : s.Kept (.forward o key) := by
  obtain ⟨ref, href⟩ := Option.isSome_iff_exists.mp he
  obtain ⟨obj, hobj, hreference⟩ := Option.bind_eq_some_iff.mp href
  have hkeeps : s.Keeps (.forward o key) ↔ (ref.ref.objectKey ≠ some key →
      ¬ s.KnownElse o ref ∧ ¬ s.KnownElse o (ref.withKey key) ∧ ref.same ref = true) := by
    constructor
    · exact fun hk => hk ref href
    · intro hk r hr
      obtain rfl := Option.some.inj (href.symm.trans hr)
      exact hk
  unfold Kept
  rw [hkeeps]
  by_cases hkey : ref.ref.objectKey = some key
  · have hact : s.act (.forward o key) = .ok s := by simp only [act, hobj, hreference, if_pos hkey]
    exact ⟨fun _ => ⟨s, hact, h⟩, fun hbad => absurd (fun hne => absurd hkey hne) hbad⟩
  · have hact : s.act (.forward o key) = (do
        let objrefs ← KeyTable.remove (compareKey s.heap ref) s.objrefs
        State.register { s with objrefs := objrefs } o obj (ref.withKey key)) := by
      simp only [act, hobj, hreference, if_neg hkey]
    have hcounted := h.counted o obj hobj
    by_cases hreg : obj.registered = true
    · -- its own node is taken out
      have hr : s.Registered o ref := ⟨obj, hobj, hreg, hreference⟩
      obtain ⟨nodes, hremove, hc⟩ := h.unlist hr (x := some { obj with registered := false })
        (by rintro _ ⟨⟩; exact ⟨rfl, hcounted⟩)
      have hothers : ∀ {o' r}, (⟨Function.update s.heap o (some { obj with registered := false }),
          nodes⟩ : State).Registered o' r ↔ o' ≠ o ∧ s.Registered o' r := by
        intro o' r
        rw [registered_update]
        exact or_iff_right (by rintro ⟨-, _, ⟨⟩, ⟨⟩, -⟩)
      obtain ⟨s', hok, hgood, hbad⟩ := hc.register (fun r hr' => (hothers.mp hr').1 rfl) hcounted
        (ref.withKey key)
      have hknown : (⟨Function.update s.heap o (some { obj with registered := false }),
          nodes⟩ : State).Known (ref.withKey key) ↔ s.KnownElse o (ref.withKey key) := by
        constructor
        · rintro ⟨o', r, hr', hsame⟩
          exact ⟨o', r, (hothers.mp hr').1, (hothers.mp hr').2, hsame⟩
        · rintro ⟨o', r, hne, hr', hsame⟩
          exact ⟨o', r, hothers.mpr ⟨hne, hr'⟩, hsame⟩
      have hact' : s.act (.forward o key) = .ok s' := by
        rw [hact, hremove]
        rw [State.register, Function.update_idem] at hok
        exact hok
      have hself : ref.same ref = true := by
        obtain ⟨n, hn, rfl⟩ := h.listed o ref hr
        obtain ⟨-, r, hr', hself⟩ := h.nodes n hn
        rwa [hr'.inj hr] at hself
      have hapart : ¬ s.KnownElse o ref := by
        rintro ⟨o', r, hne, hr', hsame⟩
        rw [h.distinct o' o r ref hr' hr hne] at hsame
        cases hsame
      rw [hknown, SoundReference.same_withKey] at hgood hbad
      refine ⟨fun hk => ⟨s', hact', hgood ⟨(hk hkey).2.1, hself⟩⟩, fun hk s'' hs'' => ?_⟩
      obtain rfl := Except.ok.inj (hact'.symm.trans hs'')
      exact hbad fun hboth => hk fun _ => ⟨hapart, hboth⟩
    · have ho : ∀ r, ¬ s.Registered o r := by
        rintro r ⟨obj', hobj', htrue, -⟩
        obtain rfl := Option.some.inj (hobj.symm.trans hobj')
        exact hreg htrue
      rw [knownElse_iff ho, knownElse_iff ho]
      by_cases hk : s.Known ref
      · -- another reference loses its node
        obtain ⟨nodes, o', r, hremove, hne, hr, hvalues⟩ := h.robbed ho hk
        refine ⟨fun hgood => absurd hk (hgood hkey).1, fun _ s' hs' => ?_⟩
        rw [hact, hremove, Outcomes.ok_bind, State.register] at hs'
        obtain ⟨objrefs, hinsert, hs'⟩ := Outcomes.of_bind hs'
        obtain rfl := Except.ok.inj hs'
        refine not_unique_of_value (registered_update.mpr (.inr ⟨hne, hr⟩)) fun m hm => ?_
        rcases KeyTable.insert_mem hinsert hm with hv | ⟨m', hm', hv⟩
        · rw [hv]
          exact hne.symm
        · rw [← hv]
          exact hvalues m' hm'
      · obtain ⟨s', hok, hgood, hbad⟩ := h.register ho hcounted (ref.withKey key)
        have hact' : s.act (.forward o key) = .ok s' := by
          rw [hact, KeyTable.remove_miss (h.miss hk)]
          exact hok
        rw [SoundReference.same_withKey] at hgood hbad
        refine ⟨fun hkeeps => ⟨s', hact', hgood (hkeeps hkey).2⟩, fun hkeeps s'' hs'' => ?_⟩
        obtain rfl := Except.ok.inj (hact'.symm.trans hs'')
        exact hbad fun hboth => hkeeps fun _ => ⟨hk, hboth⟩

theorem Canonical.kept_release (h : s.Canonical) (he : (s.heap o).isSome = true) :
    s.Kept (.release o) := by
  obtain ⟨obj, hobj⟩ := Option.isSome_iff_exists.mp he
  have hpos := h.counted o obj hobj
  have hzero : obj.refs ≠ 0 := by omega
  by_cases hmore : 1 < obj.refs
  · refine ⟨fun _ => ⟨_, ?_, h.touch hobj (obj.refs - 1) (by omega)⟩, fun hbad => ?_⟩
    · simp only [act, hobj, if_neg hzero, if_pos hmore]
    · refine absurd (fun obj' ref hobj' _ hone => ?_) hbad
      obtain rfl := Option.some.inj (hobj.symm.trans hobj')
      omega
  · have hone : obj.refs = 1 := by omega
    have hgone : ∀ obj', (none : Option ObjectReference) = some obj' →
        obj'.registered = false ∧ 0 < obj'.refs := fun _ => nofun
    cases hreference : obj.reference with
    | none =>
      have ho : ∀ r, ¬ s.Registered o r := by
        rintro r ⟨obj', hobj', -, href⟩
        obtain rfl := Option.some.inj (hobj.symm.trans hobj')
        rw [hreference] at href
        cases href
      refine ⟨fun _ => ⟨_, ?_, h.update (x := none) (fun r => iff_of_false (by simp) (ho r)) nofun⟩,
        fun hbad => ?_⟩
      · simp only [act, hobj, if_neg hzero, if_neg hmore, hreference]
      · refine absurd (fun obj' ref hobj' href _ => ?_) hbad
        obtain rfl := Option.some.inj (hobj.symm.trans hobj')
        rw [hreference] at href
        cases href
    | some ref =>
      have hact : s.act (.release o) = (do
          let objrefs ← KeyTable.remove (compareKey s.heap ref) s.objrefs
          return ⟨Function.update s.heap o none, objrefs⟩) := by
        simp only [act, hobj, if_neg hzero, if_neg hmore, hreference]
      have hkeeps : s.Keeps (.release o) ↔ (obj.registered = false → ¬ s.Known ref) := by
        constructor
        · exact fun hk => hk obj ref hobj hreference hone
        · intro hk obj' ref' hobj' href' _
          obtain rfl := Option.some.inj (hobj.symm.trans hobj')
          obtain rfl := Option.some.inj (hreference.symm.trans href')
          exact hk
      unfold Kept
      rw [hkeeps, hact]
      by_cases hreg : obj.registered = true
      · obtain ⟨nodes, hremove, hc⟩ := h.unlist ⟨obj, hobj, hreg, hreference⟩ hgone
        refine ⟨fun _ => ⟨_, by rw [hremove]; rfl, hc⟩, fun hbad => absurd (fun hfalse => ?_) hbad⟩
        rw [hreg] at hfalse
        cases hfalse
      · have ho : ∀ r, ¬ s.Registered o r := by
          rintro r ⟨obj', hobj', htrue, -⟩
          obtain rfl := Option.some.inj (hobj.symm.trans hobj')
          exact hreg htrue
        by_cases hk : s.Known ref
        · obtain ⟨nodes, o', r, hremove, hne, hr, hvalues⟩ := h.robbed ho hk
          refine ⟨fun hgood => absurd hk (hgood (Bool.eq_false_iff.mpr hreg)), fun _ s' hs' => ?_⟩
          rw [hremove] at hs'
          obtain rfl := Except.ok.inj hs'
          exact not_unique_of_value (registered_update.mpr (.inr ⟨hne, hr⟩)) hvalues
        · refine ⟨fun _ => ⟨_, by rw [KeyTable.remove_miss (h.miss hk)]; rfl, h.update (x := none)
            (fun r => iff_of_false (by simp) (ho r)) nofun⟩, fun hbad => absurd (fun _ => hk) hbad⟩

/-- Every event keeps the table exactly when it meets its condition. -/
theorem Canonical.kept (h : s.Canonical) {e : Event} (he : s.Enabled e) : s.Kept e := by
  have hfresh : ∀ {addr}, (s.heap addr).isNone = true → ∀ r, ¬ s.Registered addr r := by
    rintro addr hnone r ⟨obj, hobj, -⟩
    rw [hobj] at hnone
    cases hnone
  cases e with
  | find ref addr => exact h.kept_find addr he
  | create addr =>
    refine ⟨fun _ => ⟨_, rfl, h.update (fun r => iff_of_false ?_ (hfresh he r)) ?_⟩,
      fun hbad => absurd trivial hbad⟩
    · rintro ⟨_, ⟨⟩, ⟨⟩, -⟩
    · rintro _ ⟨⟩
      exact Nat.one_pos
  | generate o ref => exact h.kept_generate he
  | proxy o copy addr =>
    refine ⟨fun _ => ⟨_, rfl, h.update (fun r => iff_of_false ?_ (hfresh he.1 r)) ?_⟩,
      fun hbad => absurd trivial hbad⟩
    · rintro ⟨_, ⟨⟩, ⟨⟩, -⟩
    · rintro _ ⟨⟩
      exact Nat.one_pos
  | forward o key => exact h.kept_forward key he
  | duplicate o =>
    obtain ⟨obj, hobj⟩ := Option.isSome_iff_exists.mp he
    exact ⟨fun _ => ⟨_, by simp only [act, hobj], h.touch hobj _ (Nat.succ_pos obj.refs)⟩,
      fun hbad => absurd trivial hbad⟩
  | release o => exact h.kept_release he
  | resize nodes =>
    refine ⟨fun _ => ⟨_, rfl, fun n hn => h.nodes n (he.mem_iff.mp hn),
      (he.map KeyTable.Node.key).nodup_iff.mpr h.nodup, fun o r hr => ?_, h.distinct, h.counted⟩,
      fun hbad => absurd trivial hbad⟩
    obtain ⟨n, hn, hkey⟩ := h.listed o r hr
    exact ⟨n, he.mem_iff.mpr hn, hkey⟩

end

/-- No reference is held, and the table is empty. -/
def empty : State := ⟨fun _ => none, []⟩

theorem canonical_empty : empty.Canonical :=
  ⟨nofun, .nil, fun _ _ => by rintro ⟨_, ⟨⟩, -⟩, fun _ _ _ _ => by rintro ⟨_, ⟨⟩, -⟩, fun _ _ => nofun⟩

end ReferenceTable.State

open ReferenceTable in
/-- From an empty table on, the references of a program are what they should be in every state of a
run exactly when each of its events meets its condition: then each is found under its own key and
profiles until it is freed, no two are equal, and none that has been freed is left. -/
theorem references_unique_iff (es : List Event) :
    Runs.Always State.step (fun s => ∃ t, s = .ok t ∧ t.Unique) (.ok State.empty) es ↔
      Runs.Meets State.step (fun s e => ∀ t, s = .ok t → t.Enabled e → t.Keeps e)
        (.ok State.empty) es := by
  have hstep : ∀ (t : State) (e : Event), State.step (.ok t) e =
      if t.Enabled e then t.act e else .ok t := fun _ _ => rfl
  refine Runs.always_iff_meets_of (P := fun s => ∃ t, s = .ok t ∧ t.Canonical) ?_ ?_ ?_
    ⟨State.empty, rfl, State.canonical_empty⟩
  · rintro _ e ⟨t, rfl, ht⟩ hc
    rw [hstep]
    split
    · next he => exact (ht.kept he).1 (hc t rfl he)
    · exact ⟨t, rfl, ht⟩
  · rintro _ ⟨t, rfl, ht⟩
    exact ⟨t, rfl, ht.unique⟩
  · rintro _ e ⟨t, rfl, ht⟩ hc ⟨t', ht', hunique⟩
    simp only [Except.ok.injEq, forall_eq', Classical.not_imp] at hc
    rw [hstep, if_pos hc.1] at ht'
    exact (ht.kept hc.1).2 hc.2 t' ht' hunique

end ORBit2
